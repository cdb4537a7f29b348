import Mathlib.Data.List.TakeWhile
import Sysdarft.Proofs.ConditionalLines
import Sysdarft.Proofs.EncodeTarget
import Sysdarft.Proofs.LineText

/-! # Which name a definition defines

The pattern of `%define` tries letters before letters and digits, and what is behind the name may begin with
anything. So a name that has a digit behind a letter is cut in front of the digit. The patterns of `%ifdef` and
`%ifndef` go to the end of the line and read every name whole.
-/

namespace Sysdarft.Coding

open Regex

/-! ## Reading names -/

theorem isNameChar_of_isLetter {c : Char} (letter : isLetter c = true) : isNameChar c = true := by
  rw [isNameChar, letter, Bool.true_or]

theorem isSpace_of_isNameChar {c : Char} (member : isNameChar c = true) : Numerals.isSpace c = false := by
  by_contra blank
  have white : Numerals.isSpace c = true := by simpa using blank
  rcases isSpace_cases white with rfl | rfl | rfl | rfl | rfl | rfl <;> exact absurd member (by decide)

theorem isLetter_eq_false_of_isDecimal {c : Char} (digit : Numerals.isDecimal c = true) : isLetter c = false := by
  simp only [Numerals.isDecimal, decide_eq_true_eq, Char.le_def] at digit
  have low : c.toNat ≤ 57 := UInt32.le_iff_toNat_le.mp digit.2
  simp only [isLetter, Char.le_def, Bool.or_eq_false_iff, decide_eq_false_iff_not, not_and, beq_eq_false_iff_ne, ne_eq]
  refine ⟨⟨fun upper => ?_, fun lower => ?_⟩, ?_⟩
  · have bound : 65 ≤ c.toNat := UInt32.le_iff_toNat_le.mp upper
    omega
  · have bound : 97 ≤ c.toNat := UInt32.le_iff_toNat_le.mp lower
    omega
  · rintro rfl
    revert low
    decide

section Macro

variable {start : Bool} {word rest : List Char}

/-- Letters are taken as long as there are letters. -/
theorem head?_run_macroName_letters (nonempty : word ≠ []) (letters : ∀ c ∈ word, isLetter c = true)
    (stop : ∀ c ∈ rest.head?, isLetter c = false) : (run macroName start (word ++ rest)).head? = some (rest, []) := by
  obtain ⟨c, word, rfl⟩ := List.exists_cons_of_ne_nil nonempty
  have taken : (run (plus (sat isLetter)) start (c :: (word ++ rest))).head? = some (rest, []) := by
    rw [head?_run_plus_sat (letters c List.mem_cons_self),
      dropWhile_append_stop (fun d member => letters d (List.mem_cons_of_mem _ member)) stop]
  exact head?_run_alt taken

/-- A name that begins with a digit is taken whole. -/
theorem head?_run_macroName_digit (names : ∀ c ∈ word, isNameChar c = true) {digit : Char}
    (first : word.head? = some digit) (decimal : Numerals.isDecimal digit = true)
    (stop : ∀ c ∈ rest.head?, isNameChar c = false) : (run macroName start (word ++ rest)).head? = some (rest, []) := by
  cases word with
  | nil => cases first
  | cons c word =>
    obtain rfl := Option.some.inj first
    have fails : run (plus (sat isLetter)) start (c :: (word ++ rest)) = [] := by
      simp [plus, run, isLetter_eq_false_of_isDecimal decimal]
    rw [List.cons_append, macroName, run_alt_right fails, head?_run_plus_sat (names c List.mem_cons_self),
      dropWhile_append_stop (fun d member => names d (List.mem_cons_of_mem _ member)) stop]

end Macro

theorem head?_run_litNoCase {text word : List Char} (folds : word.map Char.toLower = text.map Char.toLower) (start : Bool)
    (rest : List Char) : (run (litNoCase text) start (word ++ rest)).head? = some (rest, []) := by
  induction text generalizing start word with
  | nil =>
    obtain rfl := List.map_eq_nil_iff.mp folds
    rfl
  | cons c text ih =>
    cases word with
    | nil => cases folds
    | cons e word =>
      obtain ⟨same, later⟩ := List.cons.inj folds
      have first : (run (sat fun d => d.toLower == c.toLower) start (e :: (word ++ rest))).head? =
        some (word ++ rest, []) := by
        simp [run, same]
      exact head?_run_seq first fun start => ih later start

/-- White space, up to the first other character. -/
theorem head?_run_gap {gap rest : List Char} (nonempty : gap ≠ []) (white : ∀ c ∈ gap, Numerals.isSpace c = true)
    (stop : ∀ c ∈ rest.head?, Numerals.isSpace c = false) (start : Bool) :
    (run (plus space) start (gap ++ rest)).head? = some (rest, []) := by
  obtain ⟨c, gap, rfl⟩ := List.exists_cons_of_ne_nil nonempty
  have read : (run (plus space) start (c :: (gap ++ rest))).head? = some ((gap ++ rest).dropWhile Numerals.isSpace, []) :=
    head?_run_plus_sat (white c List.mem_cons_self) (gap ++ rest)
  rw [dropWhile_append_stop (fun d member => white d (List.mem_cons_of_mem _ member)) stop] at read
  exact read

/-- The groups of a definition, from the name that is taken. -/
theorem fullMatch_definePattern {gap word rest : List Char} (nonempty : gap ≠ [])
    (white : ∀ c ∈ gap, Numerals.isSpace c = true) (stop : ∀ c ∈ (word ++ rest).head?, Numerals.isSpace c = false)
    (taken : ∀ start, (run macroName start (word ++ rest)).head? = some (rest, [])) (dots : SingleLine rest) :
    fullMatch definePattern ("%define".toList ++ (gap ++ (word ++ rest))) = some [(1, word), (2, rest)] := by
  apply fullMatch_of_head?
  have spaces (start : Bool) : (run (star space) start ("%define".toList ++ (gap ++ (word ++ rest)))).head? =
      some ("%define".toList ++ (gap ++ (word ++ rest)), []) := by
    rw [space, head?_run_star_sat]
    rfl
  have name (start : Bool) : (run (group 1 macroName) start (word ++ rest)).head? = some (rest, [(1, word)]) :=
    head?_run_group (taken start)
  have value (start : Bool) : (run (group 2 (star dot)) start (rest ++ [])).head? = some ([], [(2, rest)]) := by
    have dotted : (run (star dot) start (rest ++ [])).head? = some ([], []) := by
      rw [dot, head?_run_star_sat, List.append_nil, List.dropWhile_eq_nil_iff.mpr dots]
    exact head?_run_group dotted
  rw [List.append_nil] at value
  exact head?_run_seq (spaces true) fun start => head?_run_seq (head?_run_litNoCase rfl start _) fun start =>
    head?_run_seq (head?_run_gap nonempty white stop start) fun start => head?_run_seq (name start) value

/-! ## All readings -/

section Readings

variable {captures : Captures} {body : Regex}

theorem reads_macroName : Reads macroName fun word => word ≠ [] ∧ ∀ c ∈ word, isNameChar c = true := by
  intro start word rest captures
  rw [macroName, derives_alt, derives_plus_sat, derives_plus_sat, and_assoc]
  constructor
  · rintro (⟨nonempty, letters, rfl⟩ | found)
    · exact ⟨nonempty, fun c member => isNameChar_of_isLetter (letters c member), rfl⟩
    · exact found
  · exact .inr

/-- A line that begins with the word of a directive. -/
theorem derives_directive {sign : Char} {text more : List Char} (visible : Numerals.isSpace sign = false)
    (found : Derives (seq (star space) (seq (litNoCase (sign :: text)) body)) true (sign :: text ++ more) [] captures) :
    Derives body false more [] captures := by
  obtain ⟨spaces, behind, whole, white, derivation⟩ := reads_spaces.derives_seq.mp found
  obtain ⟨word, rest, rfl, folds, derivation⟩ := (Reads.derives_seq (reads_litNoCase (sign :: text))).mp derivation
  cases spaces with
  | cons c spaces =>
    obtain rfl : sign = c := (List.cons.inj whole).1
    rw [white sign List.mem_cons_self] at visible
    cases visible
  | nil =>
    have length : (sign :: text).length = word.length := by simpa using (congrArg List.length folds).symm
    rw [List.nil_append] at whole
    obtain ⟨rfl, rfl⟩ := List.append_inj whole length
    simpa using derivation

/-- White space in front of a pattern that begins with another character. -/
theorem derives_white {white : Regex} {language : List Char → Prop} (reads : Reads white language)
    (spaces : ∀ word, language word → ∀ c ∈ word, Numerals.isSpace c = true) {start : Bool} {gap more : List Char}
    (blank : ∀ c ∈ gap, Numerals.isSpace c = true) (stop : ∀ c ∈ more.head?, Numerals.isSpace c = false)
    (begins : ∀ {start word captures}, Derives body start word [] captures → ∀ c ∈ word.head?, Numerals.isSpace c = false)
    (found : Derives (seq white body) start (gap ++ more) [] captures) :
    Derives body (start && gap.isEmpty) more [] captures := by
  obtain ⟨word, rest, whole, member, derivation⟩ := reads.derives_seq.mp found
  have rests := congrArg (List.dropWhile Numerals.isSpace) whole
  rw [dropWhile_append_stop blank stop, dropWhile_append_stop (spaces word member) (begins derivation)] at rests
  subst rests
  rwa [List.append_cancel_right whole]

/-- White space and a name, with a name at hand. -/
theorem derives_gap_name {start : Bool} {gap more : List Char} (white : ∀ c ∈ gap, Numerals.isSpace c = true)
    (stop : ∀ c ∈ more.head?, Numerals.isSpace c = false)
    (found : Derives (seq (plus space) (seq (group 1 macroName) body)) start (gap ++ more) [] captures) :
    ∃ word rest later, more = word ++ rest ∧ word ≠ [] ∧ (∀ c ∈ word, isNameChar c = true) ∧ captures = (1, word) :: later ∧
      Derives body false rest [] later := by
  obtain ⟨spaces, behind, whole, ⟨-, blank⟩, derivation⟩ := reads_gap.derives_seq.mp found
  obtain ⟨word, rest, later, rfl, ⟨nonempty, names⟩, rfl, inner⟩ := reads_macroName.derives_group_seq.mp derivation
  obtain ⟨c, word, rfl⟩ := List.exists_cons_of_ne_nil nonempty
  have visible : ∀ d ∈ (c :: word ++ rest).head?, Numerals.isSpace d = false := by
    rintro d ⟨⟩
    exact isSpace_of_isNameChar (names c List.mem_cons_self)
  have same : more = c :: word ++ rest := by
    rw [← dropWhile_append_stop white stop, whole, dropWhile_append_stop blank visible]
  exact ⟨c :: word, rest, later, same, nonempty, names, rfl, by simpa using inner⟩

/-- A definition has to be on one line. -/
theorem singleLine_of_definePattern {gap name rest : List Char} (white : ∀ c ∈ gap, Numerals.isSpace c = true)
    (nonempty : name ≠ []) (names : ∀ c ∈ name, isNameChar c = true) (stop : ∀ c ∈ rest.head?, isNameChar c = false)
    (found : lineMatches definePattern ("%define".toList ++ (gap ++ (name ++ rest))) = true) : SingleLine rest := by
  obtain ⟨captures, derivation⟩ := fullMatch_isSome_iff.mp found
  have visible : ∀ c ∈ (name ++ rest).head?, Numerals.isSpace c = false := by
    obtain ⟨c, name, rfl⟩ := List.exists_cons_of_ne_nil nonempty
    rintro d ⟨⟩
    exact isSpace_of_isNameChar (names c List.mem_cons_self)
  obtain ⟨word, value, later, whole, -, words, -, derivation⟩ :=
    derives_gap_name white visible (derives_directive (by decide) derivation)
  obtain ⟨_, _, dots⟩ := derives_group.mp derivation
  have single : SingleLine value := (reads_dots.mp dots).1
  rcases List.append_eq_append_iff.mp whole with ⟨middle, rfl, rfl⟩ | ⟨middle, rfl, rfl⟩
  · -- the word read reaches into the rest, which begins with another character
    cases middle with
    | nil => exact single
    | cons c middle =>
      have member := words c (List.mem_append_right _ List.mem_cons_self)
      rw [stop c rfl] at member
      cases member
  · exact fun c member => single c (List.mem_append_right _ member)

/-- The name of a conditional is read whole. -/
theorem fullMatch_conditionPattern {directive gap name tail : List Char} (nonempty : gap ≠ [])
    (white : ∀ c ∈ gap, Numerals.isSpace c = true) (named : name ≠ [])
    (names : ∀ c ∈ name, isNameChar c = true) (blank : ∀ c ∈ tail, Numerals.isSpace c = true) :
    fullMatch (conditionPattern ('%' :: directive)) ('%' :: directive ++ (gap ++ (name ++ tail))) = some [(1, name)] := by
  have visible : ∀ c ∈ (name ++ tail).head?, Numerals.isSpace c = false := by
    obtain ⟨c, name, rfl⟩ := List.exists_cons_of_ne_nil named
    rintro d ⟨⟩
    exact isSpace_of_isNameChar (names c List.mem_cons_self)
  refine fullMatch_eq_some ?_ fun captures derivation => ?_
  · refine reads_spaces.derives_seq.mpr ⟨[], _, rfl, by simp, ?_⟩
    refine (Reads.derives_seq (reads_litNoCase ('%' :: directive))).mpr ⟨_, _, rfl, rfl, ?_⟩
    refine reads_gap.derives_seq.mpr ⟨gap, _, rfl, ⟨nonempty, white⟩, ?_⟩
    refine reads_macroName.derives_group_seq.mpr ⟨name, tail, [], rfl, ⟨named, names⟩, rfl, ?_⟩
    exact reads_spaces.mpr ⟨blank, rfl⟩
  · obtain ⟨word, rest, later, whole, nonempty', words, rfl, spaces⟩ :=
      derives_gap_name white visible (derives_directive (by decide) derivation)
    obtain ⟨blank', rfl⟩ := reads_spaces.mp spaces
    have stop {text : List Char} (all : ∀ c ∈ text, Numerals.isSpace c = true) : ∀ c ∈ text.head?, isNameChar c = false := by
      intro c first
      by_contra member
      have white := all c (List.mem_of_mem_head? first)
      rw [isSpace_of_isNameChar (by simpa using member)] at white
      cases white
    have rests := congrArg (List.dropWhile isNameChar) whole
    rw [dropWhile_append_stop names (stop blank), dropWhile_append_stop words (stop blank')] at rests
    rw [rests] at whole
    rw [List.append_cancel_right whole]

end Readings

/-! ## The replacement directive -/

/-- A line is the `.equ` directive for a key and a value. -/
def MapsTo (line key value : List Char) : Prop :=
  lineMatches equPattern line = true ∧ capture equPattern 1 line = key ∧ capture equPattern 2 line = value

theorem equLine_eq (name value : List Char) :
    equLine name value =
      ".equ".toList ++ ([' '] ++ '\'' :: (name ++ '\'' :: ([] ++ ',' :: ([' '] ++ '\'' :: (value ++ ['\'']))))) := by
  have first : ".equ '".toList = ".equ".toList ++ [' ', '\''] := by decide
  have second : "', '".toList = ['\'', ',', ' ', '\''] := by decide
  have third : "'".toList = ['\''] := by decide
  unfold equLine
  simp only [first, second, third]
  generalize ".equ".toList = word
  simp only [List.append_assoc, List.cons_append, List.nil_append]

theorem derives_quoted {index : ℕ} {start : Bool} {word rest : List Char} {captures : Captures} :
    Derives (quoted index) start word rest captures ↔
      ∃ inner, word = '\'' :: (inner ++ ['\'']) ∧ '\'' ∉ inner ∧ captures = [(index, inner)] := by
  have reads : Reads (star (sat (· != '\''))) fun word => ∀ c ∈ word, (c != '\'') = true := derives_star_sat
  rw [quoted, derives_chr_seq]
  constructor
  · rintro ⟨behind, rfl, derivation⟩
    obtain ⟨inner, last, later, rfl, plain, rfl, closing⟩ := reads.derives_group_seq.mp derivation
    obtain ⟨rfl, rfl⟩ := derives_chr.mp closing
    exact ⟨inner, rfl, fun member => absurd (plain _ member) (by decide), rfl⟩
  · rintro ⟨inner, rfl, plain, rfl⟩
    refine ⟨_, rfl, reads.derives_group_seq.mpr
      ⟨inner, ['\''], [], rfl, fun c member => ?_, rfl, derives_chr.mpr ⟨rfl, rfl⟩⟩⟩
    exact bne_iff_ne.mpr fun same => plain (same ▸ member)

/-- A quoted text in front of another pattern. -/
theorem derives_quoted_seq {index : ℕ} {body : Regex} {start : Bool} {inner more rest : List Char} {captures : Captures}
    (plain : '\'' ∉ inner) :
    Derives (seq (quoted index) body) start ('\'' :: (inner ++ '\'' :: more)) rest captures ↔
      ∃ later, captures = (index, inner) :: later ∧ Derives body false more rest later := by
  rw [Regex.derives_seq]
  constructor
  · rintro ⟨left, right, before, after, whole, rfl, head, tail⟩
    obtain ⟨inner', rfl, plain', rfl⟩ := derives_quoted.mp head
    rw [List.cons_append, List.append_assoc, List.singleton_append, List.cons.injEq] at whole
    obtain ⟨rfl, rfl⟩ := Text.append_cons_inj plain plain' whole.2
    exact ⟨after, rfl, by simpa using tail⟩
  · rintro ⟨later, rfl, tail⟩
    refine ⟨'\'' :: (inner ++ ['\'']), more,
      [(index, inner)], later, by simp, rfl, derives_quoted.mpr ⟨inner, rfl, plain, rfl⟩, ?_⟩
    simpa using tail

/-- The groups of an `.equ` line that was made from a definition. -/
theorem derives_equLine {name value : List Char} (plain : '\'' ∉ name) {captures : Captures} :
    Derives equPattern true (equLine name value) [] captures ↔ '\'' ∉ value ∧ captures = [(1, name), (2, value)] := by
  rw [equLine_eq]
  constructor
  · intro found
    have quote {index : ℕ} {body : Regex} {start : Bool} {word : List Char} {captures : Captures}
        (derivation : Derives (seq (quoted index) body) start word [] captures) :
        ∀ c ∈ word.head?, Numerals.isSpace c = false := by
      obtain ⟨left, right, _, _, rfl, -, head, -⟩ := Regex.derives_seq.mp derivation
      obtain ⟨inner, rfl, -, -⟩ := derives_quoted.mp head
      rintro c ⟨⟩
      decide
    have comma {body : Regex} {start : Bool} {word : List Char} {captures : Captures}
        (derivation : Derives (seq (chr ',') body) start word [] captures) :
        ∀ c ∈ word.head?, Numerals.isSpace c = false := by
      obtain ⟨right, rfl, -⟩ := derives_chr_seq.mp derivation
      rintro c ⟨⟩
      decide
    have stop {c : Char} {rest : List Char} (visible : Numerals.isSpace c = false) :
        ∀ d ∈ (c :: rest).head?, Numerals.isSpace d = false := by
      rintro d ⟨⟩
      exact visible
    have keyed := derives_white reads_gap (fun _ gap => gap.2) (by decide) (stop (by decide)) quote
      (derives_directive (by decide) found)
    obtain ⟨later, rfl, behind⟩ := (derives_quoted_seq plain).mp keyed
    have listed := derives_white reads_spaces (fun _ blank => blank) (by decide) (stop (by decide)) comma behind
    obtain ⟨_, same, valued⟩ := derives_chr_seq.mp listed
    obtain rfl := (List.cons.inj same).2
    have last := derives_white reads_spaces (fun _ blank => blank) (by decide) (stop (by decide)) quote valued
    obtain ⟨left, right, before, after, whole, rfl, head, tail⟩ := Regex.derives_seq.mp last
    obtain ⟨inner, rfl, plain', rfl⟩ := derives_quoted.mp head
    obtain ⟨blank, rfl⟩ := reads_spaces.mp tail
    rcases List.eq_nil_or_concat right with rfl | ⟨front, d, rfl⟩
    · rw [List.append_nil, List.cons.injEq] at whole
      obtain rfl := List.append_cancel_right whole.2
      exact ⟨plain', rfl⟩
    · -- the line ends in a quotation mark, not in white space
      rw [List.concat_eq_append, ← List.append_assoc, ← List.cons_append] at whole
      obtain ⟨-, same⟩ := List.append_inj' whole rfl
      have white := blank d (by simp)
      rw [← (List.cons.inj same).1] at white
      exact absurd white (by decide)
  · rintro ⟨plain', rfl⟩
    refine reads_spaces.derives_seq.mpr ⟨[], _, rfl, by simp, ?_⟩
    refine (Reads.derives_seq (reads_litNoCase ".equ".toList)).mpr ⟨_, _, rfl, rfl, ?_⟩
    refine reads_gap.derives_seq.mpr ⟨[' '], _, rfl, ⟨by simp, by decide⟩, ?_⟩
    refine (derives_quoted_seq plain).mpr ⟨[(2, value)], rfl, ?_⟩
    refine reads_spaces.derives_seq.mpr ⟨[], _, rfl, by simp, ?_⟩
    refine derives_chr_seq.mpr ⟨_, rfl, ?_⟩
    refine reads_spaces.derives_seq.mpr ⟨[' '], _, rfl, by decide, ?_⟩
    exact (derives_quoted_seq plain').mpr ⟨[], rfl, reads_spaces.mpr ⟨by simp, rfl⟩⟩

theorem mapsTo_equLine {name value key text : List Char} (plain : '\'' ∉ name) :
    MapsTo (equLine name value) key text ↔ '\'' ∉ value ∧ name = key ∧ value = text := by
  by_cases quote : '\'' ∈ value
  · have fails : fullMatch equPattern (equLine name value) = none :=
      fullMatch_eq_none fun captures derivation => ((derives_equLine plain).mp derivation).1 quote
    simp [MapsTo, lineMatches, fails, quote]
  · have groups : fullMatch equPattern (equLine name value) = some [(1, name), (2, value)] :=
      fullMatch_eq_some ((derives_equLine plain).mpr ⟨quote, rfl⟩) fun _ derivation =>
        ((derives_equLine plain).mp derivation).2
    simp [MapsTo, lineMatches, capture, groups, quote, Captures.get]

/-! ## Definitions -/

/-- A line `%define name value`. -/
structure DefineLine where
  gap : List Char
  name : List Char
  separator : List Char
  value : List Char
  blank_gap : gap ≠ [] ∧ ∀ c ∈ gap, Numerals.isSpace c = true
  identifier : name ≠ [] ∧ ∀ c ∈ name, isNameChar c = true
  blank_separator : ∀ c ∈ separator, Numerals.isSpace c = true
  separated : value ≠ [] → separator ≠ []

def DefineLine.text (define : DefineLine) : List Char :=
  "%define".toList ++ (define.gap ++ (define.name ++ (define.separator ++ define.value)))

section Define

variable (files : FileSystem) (include_path : List (List Char))

/-- From a state on, every conditional on a name finds it defined. -/
def KnownLater (state : HeadState) (name : List Char) : Prop :=
  ∀ line_number lines lines' last, headLines files include_path line_number state lines = .ok (lines', last) →
    last.skipping = false → ∀ line_number' gap tail, gap ≠ [] → (∀ c ∈ gap, Numerals.isSpace c = true) →
      (∀ c ∈ tail, Numerals.isSpace c = true) →
        headLine files include_path line_number' last ("%ifdef".toList ++ (gap ++ (name ++ tail))) =
          .ok ([], last.opened true) ∧
          headLine files include_path line_number' last ("%ifndef".toList ++ (gap ++ (name ++ tail))) =
            .ok ([], last.opened false)

/-- The line becomes the replacement of the name by the value without spaces, and the name is defined, no other. -/
def DefinesExactly (state : HeadState) (define : DefineLine) (result : Except BuildError (List Char × HeadState)) : Prop :=
  ∃ text state', result = .ok (text, state') ∧ MapsTo text define.name (removeSpace define.value) ∧
    (∀ other, state'.definition.contains other = true ↔ other = define.name ∨ state.definition.contains other = true) ∧
      KnownLater files include_path state' define.name

/-- The name has no digit or begins with one, spaces and tabs stand before the value, and the value has no quotation
mark, no tab, no line break, and no character that begins a comment. -/
def DefineLine.Safe (define : DefineLine) : Prop :=
  ((∀ c ∈ define.name, Numerals.isDecimal c = false) ∨ ∃ c ∈ define.name.head?, Numerals.isDecimal c = true) ∧
    (∀ c ∈ define.separator, c = ' ' ∨ c = '\t') ∧ ∀ c ∈ define.value, c ∉ "';#\t\n\r".toList

variable {files include_path} {state : HeadState}

theorem keptLine_contains {line_number : ℕ} {line : List Char} {definition : Definitions} {header_files : List IncludeFile}
    {done : List Char × Definitions × List IncludeFile} {name : List Char}
    (kept : keptLine files include_path line_number definition header_files line = .ok done)
    (known : definition.contains name = true) : done.2.1.contains name = true := by
  simp only [keptLine] at kept
  split_ifs at kept
  · cases found : processInclude files include_path line_number (headText line) with
    | error e =>
      rw [found] at kept
      cases kept
    | ok file =>
      rw [found] at kept
      cases kept
      exact known
  · cases kept
    rw [processDefine, OrderedMap.contains_emplace, known, Bool.or_true]
  · cases kept
    exact known

/-- Definitions stay. -/
theorem headLine_contains {line_number : ℕ} {line text : List Char} {state' : HeadState} {name : List Char}
    (success : headLine files include_path line_number state line = .ok (text, state'))
    (known : state.definition.contains name = true) : state'.definition.contains name = true := by
  cases ends : lineMatches endifPattern (headText line) with
  | true =>
    rw [headLine_endif ends] at success
    cases success
    exact known
  | false =>
    cases skips : state.skipping with
    | true =>
      rw [headLine_skipped ends skips] at success
      split_ifs at success <;> cases success <;> exact known
    | false =>
      cases opened : opens line with
      | true =>
        rw [headLine_opens opened skips] at success
        cases success
        exact known
      | false =>
        rw [headLine_kept ends opened skips] at success
        cases kept : keptLine files include_path line_number state.definition state.header_files line with
        | error e =>
          rw [kept] at success
          cases success
        | ok done =>
          rw [kept] at success
          cases success
          exact keptLine_contains kept known

theorem headLines_contains {line_number : ℕ} {file lines : List (List Char)} {state' : HeadState} {name : List Char}
    (success : headLines files include_path line_number state file = .ok (lines, state'))
    (known : state.definition.contains name = true) : state'.definition.contains name = true := by
  induction file generalizing line_number state lines with
  | nil =>
    cases success
    exact known
  | cons line rest ih =>
    rw [headLines] at success
    obtain ⟨⟨text, middle⟩, first, success⟩ := Effects.except_bind_eq_ok.mp success
    obtain ⟨⟨texts, last⟩, later, success⟩ := Effects.except_bind_eq_ok.mp success
    cases success
    exact ih later (headLine_contains first known)

theorem isCode_of_isSpace {c : Char} (white : Numerals.isSpace c = true) : isCode c = true := by
  rcases isSpace_cases white with rfl | rfl | rfl | rfl | rfl | rfl <;> decide

theorem isCode_of_isNameChar {c : Char} (member : isNameChar c = true) : isCode c = true := by
  rw [isCode, Bool.and_eq_true, bne_iff_ne, bne_iff_ne]
  constructor <;> rintro rfl <;> exact absurd member (by decide)

theorem isSpace_expandTabs {gap : List Char} (white : ∀ c ∈ gap, Numerals.isSpace c = true) :
    ∀ c ∈ expandTabs gap, Numerals.isSpace c = true := by
  intro c member
  rcases mem_expandTabs.mp member with ⟨inside, -⟩ | ⟨rfl, -⟩
  · exact white c inside
  · decide

theorem expandTabs_ne_nil {gap : List Char} (nonempty : gap ≠ []) : expandTabs gap ≠ [] := by
  obtain ⟨c, gap, rfl⟩ := List.exists_cons_of_ne_nil nonempty
  by_cases tab : c = '\t'
  · subst tab
    exact List.ne_nil_of_mem (mem_expandTabs.mpr (.inr ⟨rfl, List.mem_cons_self⟩))
  · exact List.ne_nil_of_mem (mem_expandTabs.mpr (.inl ⟨List.mem_cons_self, tab⟩))

theorem expandTabs_name {name : List Char} (names : ∀ c ∈ name, isNameChar c = true) : expandTabs name = name :=
  expandTabs_of_not_mem fun tab => absurd (names _ tab) (by decide)

/-- The text of a line with a directive, white space, a name and more. -/
theorem headText_directive {directive gap name : List Char} (plain : ∀ c ∈ directive, isCode c = true ∧ c ≠ '\t')
    (white : ∀ c ∈ gap, Numerals.isSpace c = true) (names : ∀ c ∈ name, isNameChar c = true) (more : List Char) :
    headText (directive ++ (gap ++ (name ++ more))) = directive ++ (expandTabs gap ++ (name ++ headText more)) := by
  rw [headText_append fun c member => (plain c member).1, headText_append fun c member => isCode_of_isSpace (white c member),
    headText_append fun c member => isCode_of_isNameChar (names c member), expandTabs_name names,
    expandTabs_of_not_mem fun tab => (plain _ tab).2 rfl]

theorem headText_blank {tail : List Char} (blank : ∀ c ∈ tail, Numerals.isSpace c = true) :
    headText tail = expandTabs tail := by
  rw [headText_eq, List.takeWhile_eq_self_iff.mpr fun c member => isCode_of_isSpace (blank c member)]

/-- A name that is defined is found by every conditional from there on. -/
theorem knownLater_of_contains {name : List Char} (named : name ≠ []) (names : ∀ c ∈ name, isNameChar c = true)
    (known : state.definition.contains name = true) : KnownLater files include_path state name := by
  intro line_number lines lines' last success live line_number' gap tail nonempty white blank
  have stays := headLines_contains success known
  have ifdef : headText ("%ifdef".toList ++ (gap ++ (name ++ tail))) =
      "%ifdef".toList ++ (expandTabs gap ++ (name ++ expandTabs tail)) := by
    rw [headText_directive (by decide) white names, headText_blank blank]
  have ifndef : headText ("%ifndef".toList ++ (gap ++ (name ++ tail))) =
      "%ifndef".toList ++ (expandTabs gap ++ (name ++ expandTabs tail)) := by
    rw [headText_directive (by decide) white names, headText_blank blank]
  have first : fullMatch ifdefPattern (headText ("%ifdef".toList ++ (gap ++ (name ++ tail)))) = some [(1, name)] := by
    rw [ifdef]
    exact fullMatch_conditionPattern (expandTabs_ne_nil nonempty) (isSpace_expandTabs white) named names
      (isSpace_expandTabs blank)
  have second : fullMatch ifndefPattern (headText ("%ifndef".toList ++ (gap ++ (name ++ tail)))) = some [(1, name)] := by
    rw [ifndef]
    exact fullMatch_conditionPattern (expandTabs_ne_nil nonempty) (isSpace_expandTabs white) named names
      (isSpace_expandTabs blank)
  have matched : lineMatches ifdefPattern (headText ("%ifdef".toList ++ (gap ++ (name ++ tail)))) = true := by
    rw [lineMatches, first]
    rfl
  have matched' : lineMatches ifndefPattern (headText ("%ifndef".toList ++ (gap ++ (name ++ tail)))) = true := by
    rw [lineMatches, second]
    rfl
  have differs : lineMatches ifdefPattern (headText ("%ifndef".toList ++ (gap ++ (name ++ tail)))) = false :=
    Directive.not_matches .ifndef .ifdef matched' (by decide)
  constructor
  · have selected : selects ("%ifdef".toList ++ (gap ++ (name ++ tail))) last.definition = true := by
      rw [selects, if_pos matched, capture, first]
      exact stays
    rw [headLine_opens (by rw [opens, matched, Bool.true_or]) live, selected]
  · have deselected : selects ("%ifndef".toList ++ (gap ++ (name ++ tail))) last.definition = false := by
      have found : last.definition.contains (((some [(1, name)]).map fun captures : Captures => captures.get 1).getD []) =
        true :=
        stays
      rw [selects, differs, if_neg Bool.false_ne_true, capture, second]
      exact congrArg not found
    rw [headLine_opens (by rw [opens, matched', Bool.or_true]) live, deselected]

/-- The definition line as the scan sees it: the name that is taken, and what is left for the value. -/
theorem headLine_definePattern {line_number : ℕ} {line word rest : List Char} (live : state.skipping = false)
    (found : fullMatch definePattern (headText line) = some [(1, word), (2, rest)])
    (names : ∀ c ∈ word, isNameChar c = true) :
    headLine files include_path line_number state line =
      .ok (equLine word (removeSpace rest),
        { state with definition := state.definition.emplace word (removeSpace rest) }) := by
  have matched : lineMatches definePattern (headText line) = true := by
    rw [lineMatches, found]
    rfl
  have first : lineMatches includePattern (headText line) = false :=
    Directive.not_matches .define .include matched (by decide)
  have ends : lineMatches endifPattern (headText line) = false := Directive.not_matches .define .endif matched (by decide)
  have ifdef : lineMatches ifdefPattern (headText line) = false := Directive.not_matches .define .ifdef matched (by decide)
  have ifndef : lineMatches ifndefPattern (headText line) = false :=
    Directive.not_matches .define .ifndef matched (by decide)
  have word_stays : removeSpace word = word :=
    List.filter_eq_self.mpr fun c member => bne_iff_ne.mpr fun space => absurd (space ▸ names c member) (by decide)
  have key : replaceAll (capture definePattern 1 (headText line)) [' '] [] = word := by
    rw [capture, found, replaceAll_space]
    exact word_stays
  have value : replaceAll (capture definePattern 2 (headText line)) [' '] [] = removeSpace rest := by
    rw [capture, found, replaceAll_space]
    rfl
  rw [headLine_kept ends (by rw [opens, ifdef, ifndef, Bool.or_false]) live]
  simp only [keptLine, first, matched, processDefine, key, value, Bool.false_eq_true, ↓reduceIte, Except.map]

/-- A line that begins as a definition and is none is kept as it is. -/
theorem headLine_not_definePattern {line_number : ℕ} {line : List Char} (live : state.skipping = false)
    (front : '%' :: Directive.define.word <+: directiveText (headText line))
    (fails : lineMatches definePattern (headText line) = false) :
    headLine files include_path line_number state line = .ok (headText line, state) := by
  have others (directive : Directive) (differs : directive ≠ .define) :
    lineMatches directive.pattern (headText line) = false := by
    by_contra matched
    have front' := Directive.word_front (by simpa using matched)
    rcases List.prefix_or_prefix_of_prefix front front' with inside | inside
    · exact differs (Directive.eq_of_front inside).symm
    · exact differs (Directive.eq_of_front inside)
  have first : lineMatches includePattern (headText line) = false := others .include (by decide)
  have ends : lineMatches endifPattern (headText line) = false := others .endif (by decide)
  have ifdef : lineMatches ifdefPattern (headText line) = false := others .ifdef (by decide)
  have ifndef : lineMatches ifndefPattern (headText line) = false := others .ifndef (by decide)
  have reports : lineMatches errorPattern (headText line) = false := others .error (by decide)
  rw [headLine_kept ends (by rw [opens, ifdef, ifndef, Bool.or_false]) live]
  simp only [keptLine, first, fails, reports, Bool.false_eq_true, ↓reduceIte, Except.map]

/-- The part of a name that `%define` takes: letters in front of a digit, or a name that begins with a digit. -/
def takenName (name : List Char) : List Char :=
  if name.head?.any isLetter then name.takeWhile isLetter else name

theorem takenName_eq_self_iff {name : List Char} (names : ∀ c ∈ name, isNameChar c = true) :
    takenName name = name ↔
      (∀ c ∈ name, Numerals.isDecimal c = false) ∨ ∃ c ∈ name.head?, Numerals.isDecimal c = true := by
  have letter_or_digit {c : Char} (member : c ∈ name) : isLetter c = true ↔ Numerals.isDecimal c = false := by
    constructor
    · intro letter
      by_contra digit
      rw [isLetter_eq_false_of_isDecimal (by simpa using digit)] at letter
      cases letter
    · intro digit
      have either := names c member
      rwa [isNameChar, digit, Bool.or_false] at either
  cases name with
  | nil => simp [takenName]
  | cons c name =>
    rw [takenName]
    by_cases letter : isLetter c = true
    · have first : ¬ ∃ d ∈ (c :: name).head?, Numerals.isDecimal d = true := by
        rintro ⟨d, ⟨⟩, digit⟩
        rw [(letter_or_digit List.mem_cons_self).mp letter] at digit
        cases digit
      rw [if_pos (by simpa using letter), List.takeWhile_eq_self_iff, or_iff_left first]
      exact forall₂_congr fun d member => letter_or_digit member
    · rw [if_neg (by simpa using letter)]
      refine iff_of_true rfl (.inr ⟨c, rfl, ?_⟩)
      by_contra digit
      exact letter ((letter_or_digit List.mem_cons_self).mpr (by simpa using digit))

/-- What `%define` makes of a name. -/
theorem head?_run_macroName {name tail : List Char} (named : name ≠ []) (names : ∀ c ∈ name, isNameChar c = true)
    (stop : ∀ c ∈ tail.head?, isNameChar c = false) :
    ∃ rest, name ++ tail = takenName name ++ (rest ++ tail) ∧
    (∀ c ∈ takenName name, isNameChar c = true) ∧ '\'' ∉ takenName name ∧
      (takenName name = name → rest = []) ∧
        ∀ start, (run macroName start (takenName name ++ (rest ++ tail))).head? = some (rest ++ tail, []) := by
  have quote : '\'' ∉ name := fun member => absurd (names _ member) (by decide)
  obtain ⟨c, name, rfl⟩ := List.exists_cons_of_ne_nil named
  rw [takenName]
  by_cases letter : isLetter c = true
  · have front := List.takeWhile_append_dropWhile (p := isLetter) (l := c :: name)
    rw [if_pos (by simpa using letter)]
    refine ⟨(c :: name).dropWhile isLetter, ?_, fun d member => ?_, fun member => ?_, fun same => ?_, fun start => ?_⟩
    · rw [← List.append_assoc, front]
    · exact names d ((List.takeWhile_prefix _).subset member)
    · exact quote ((List.takeWhile_prefix _).subset member)
    · exact List.dropWhile_eq_nil_iff.mpr (List.takeWhile_eq_self_iff.mp same)
    · refine head?_run_macroName_letters ?_ (fun d member => List.mem_takeWhile_imp member) ?_
      · rw [List.takeWhile_cons_of_pos letter]
        exact List.cons_ne_nil _ _
      · have dropped := List.head?_dropWhile_not isLetter (c :: name)
        cases behind : (c :: name).dropWhile isLetter with
        | nil =>
          intro d first
          by_contra letter
          have outside := stop d first
          rw [isNameChar_of_isLetter (by simpa using letter)] at outside
          cases outside
        | cons e rest =>
          rw [behind] at dropped
          rintro d ⟨⟩
          exact dropped
  · have digit : Numerals.isDecimal c = true := by
      have either := names c List.mem_cons_self
      rwa [isNameChar, Bool.or_eq_true, or_iff_right letter] at either
    rw [if_neg (by simpa using letter)]
    exact ⟨[], rfl, names, quote, fun _ => rfl, fun start => head?_run_macroName_digit names rfl digit stop⟩

/-- The value survives exactly when only spaces and tabs stand before it and it has none of the characters that are
cut off, expanded, or not matched. -/
theorem value_iff {separator value : List Char} (blank : ∀ c ∈ separator, Numerals.isSpace c = true) :
    (SingleLine (headText (separator ++ value)) ∧ '\'' ∉ removeSpace (headText (separator ++ value)) ∧
        removeSpace (headText (separator ++ value)) = removeSpace value) ↔
      (∀ c ∈ separator, c = ' ' ∨ c = '\t') ∧ ∀ c ∈ value, c ∉ "';#\t\n\r".toList := by
  have text : headText (separator ++ value) = expandTabs (separator ++ value.takeWhile isCode) := by
    rw [headText_eq, List.takeWhile_append_of_pos fun c member => isCode_of_isSpace (blank c member)]
  rw [text]
  constructor
  · rintro ⟨single, quote, same⟩
    rw [removeSpace_expandTabs] at same
    rw [removeSpace_expandTabs] at quote
    have from_code {c : Char} (member : c ∈ value) (visible : c ≠ ' ') : isCode c = true ∧ c ≠ '\t' := by
      have inside : c ∈ removeSpace value := List.mem_filter.mpr ⟨member, by simpa using visible⟩
      rw [← same, List.mem_filter, List.mem_append] at inside
      obtain ⟨either, kept⟩ := inside
      refine ⟨?_, by simpa [visible] using kept⟩
      rcases either with early | late
      · exact isCode_of_isSpace (blank c early)
      · exact List.mem_takeWhile_imp late
    have whole : value.takeWhile isCode = value := by
      rw [List.takeWhile_eq_self_iff]
      intro c member
      by_cases space : c = ' '
      · subst space
        rfl
      · exact (from_code member space).1
    have no_tab : value.filter (fun c => c != ' ' && c != '\t') = removeSpace value := by
      refine List.filter_congr fun c member => ?_
      by_cases space : c = ' '
      · simp [space]
      · simp [space, (from_code member space).2]
    rw [whole] at same single quote
    rw [List.filter_append, no_tab, List.append_left_eq_self, List.filter_eq_nil_iff] at same
    refine ⟨fun c member => ?_, fun c member cut => ?_⟩
    · have gone := same c member
      simp only [Bool.and_eq_true, bne_iff_ne, ne_eq, not_and, not_not] at gone
      by_cases space : c = ' '
      · exact .inl space
      · exact .inr (gone space)
    · have kept (visible : c ≠ ' ') (untabbed : c ≠ '\t') :
          c ∈ (separator ++ value).filter fun d => d != ' ' && d != '\t' :=
        List.mem_filter.mpr ⟨List.mem_append_right _ member, by simp [visible, untabbed]⟩
      have on_line (untabbed : c ≠ '\t') : (c != '\n' && c != '\r') = true :=
        single c (mem_expandTabs.mpr (.inl ⟨List.mem_append_right _ member, untabbed⟩))
      have cases : c = '\'' ∨ c = ';' ∨ c = '#' ∨ c = '\t' ∨ c = '\n' ∨ c = '\r' := by simpa using cut
      rcases cases with rfl | rfl | rfl | rfl | rfl | rfl
      · exact quote (kept (by decide) (by decide))
      · exact absurd (from_code member (by decide)).1 (by decide)
      · exact absurd (from_code member (by decide)).1 (by decide)
      · exact absurd rfl (from_code member (by decide)).2
      · exact absurd (on_line (by decide)) (by decide)
      · exact absurd (on_line (by decide)) (by decide)
  · rintro ⟨blanks, clean⟩
    have not_cut {c : Char} (member : c ∈ value) :
        c ≠ '\'' ∧ c ≠ ';' ∧ c ≠ '#' ∧ c ≠ '\t' ∧ c ≠ '\n' ∧ c ≠ '\r' := by simpa using clean c member
    have whole : value.takeWhile isCode = value := by
      rw [List.takeWhile_eq_self_iff]
      intro c member
      obtain ⟨-, semicolon, hash, -⟩ := not_cut member
      rw [isCode, bne_iff_ne.mpr semicolon, bne_iff_ne.mpr hash, Bool.and_self]
    have gone : separator.filter (fun c => c != ' ' && c != '\t') = [] := by
      rw [List.filter_eq_nil_iff]
      intro c member
      rcases blanks c member with rfl | rfl <;> decide
    have no_tab : value.filter (fun c => c != ' ' && c != '\t') = removeSpace value := by
      refine List.filter_congr fun c member => ?_
      rw [bne_iff_ne.mpr (not_cut member).2.2.2.1, Bool.and_true]
    rw [whole]
    have same : removeSpace (expandTabs (separator ++ value)) = removeSpace value := by
      rw [removeSpace_expandTabs, List.filter_append, gone, no_tab, List.nil_append]
    refine ⟨fun c member => ?_, ?_, same⟩
    · rcases mem_expandTabs.mp member with ⟨inside, -⟩ | ⟨rfl, -⟩
      · rcases List.mem_append.mp inside with early | late
        · rcases blanks c early with rfl | rfl <;> decide
        · obtain ⟨-, -, -, -, feed, carriage⟩ := not_cut late
          rw [bne_iff_ne.mpr feed, bne_iff_ne.mpr carriage, Bool.and_self]
      · decide
    · rw [same]
      exact fun member => (not_cut (List.mem_filter.mp member).1).1 rfl

theorem contains_emplace_iff {definition : Definitions} {key value other : List Char} :
    (definition.emplace key value).contains other = true ↔ other = key ∨ definition.contains other = true := by
  simp only [OrderedMap.contains_emplace, Bool.or_eq_true, decide_eq_true_eq]

/-- `%define` defines the name it is given, and maps it to the value it is given, exactly when the name has no digit
behind a letter and nothing is cut off from the value. -/
theorem headLine_define_iff (files : FileSystem) (include_path : List (List Char)) (line_number : ℕ) (state : HeadState)
    (define : DefineLine) (live : state.skipping = false) :
    DefinesExactly files include_path state define (headLine files include_path line_number state define.text) ↔
      define.Safe := by
  obtain ⟨nonempty, white⟩ := define.blank_gap
  obtain ⟨named, names⟩ := define.identifier
  have stop : ∀ c ∈ (headText (define.separator ++ define.value)).head?, isNameChar c = false := by
    rw [headText_append fun c member => isCode_of_isSpace (define.blank_separator c member)]
    intro c first
    by_cases empty : define.separator = []
    · have no_value : define.value = [] := by
        by_contra value
        exact define.separated value empty
      rw [empty, no_value] at first
      cases first
    · rw [List.head?_append_of_ne_nil _ (expandTabs_ne_nil empty)] at first
      have blank := isSpace_expandTabs define.blank_separator c (List.mem_of_mem_head? first)
      by_contra member
      rw [isSpace_of_isNameChar (by simpa using member)] at blank
      cases blank
  obtain ⟨rest, split, taken, quote, whole, preferred⟩ := head?_run_macroName named names stop
  have text : headText define.text =
      "%define".toList ++ (expandTabs define.gap ++ (define.name ++ headText (define.separator ++ define.value))) :=
    headText_directive (by decide) white names _
  have pieces : define.name = takenName define.name ++ rest := by
    rw [← List.append_assoc] at split
    exact List.append_cancel_right split
  have dotted : ∀ c ∈ rest, (c != '\n' && c != '\r') = true := by
    intro c member
    have named : isNameChar c = true := names c (pieces ▸ List.mem_append_right _ member)
    rw [Bool.and_eq_true, bne_iff_ne, bne_iff_ne]
    constructor <;> rintro rfl <;> exact absurd named (by decide)
  by_cases dots : SingleLine (rest ++ headText (define.separator ++ define.value))
  · have found : fullMatch definePattern (headText define.text) =
        some [(1, takenName define.name), (2, rest ++ headText (define.separator ++ define.value))] := by
      rw [text, split]
      refine fullMatch_definePattern (expandTabs_ne_nil nonempty) (isSpace_expandTabs white) ?_ preferred dots
      rw [← split, List.head?_append_of_ne_nil _ named]
      exact fun c first => isSpace_of_isNameChar (names c (List.mem_of_mem_head? first))
    rw [headLine_definePattern live found taken]
    constructor
    · rintro ⟨line, state', result, maps, -, -⟩
      obtain ⟨rfl, rfl⟩ := Prod.mk.inj (Except.ok.inj result)
      obtain ⟨plain, same, value⟩ := (mapsTo_equLine quote).mp maps
      rw [whole same, List.nil_append] at plain value dots
      exact ⟨(takenName_eq_self_iff names).mp same, (value_iff define.blank_separator).mp ⟨dots, plain, value⟩⟩
    · rintro ⟨name, value⟩
      have same := (takenName_eq_self_iff names).mpr name
      obtain ⟨-, plain, kept⟩ := (value_iff define.blank_separator).mpr value
      rw [whole same, List.nil_append]
      refine ⟨_, _, rfl, (mapsTo_equLine quote).mpr ⟨plain, same, kept⟩, fun other => ?_, ?_⟩
      · rw [same]
        exact contains_emplace_iff
      · refine knownLater_of_contains named names ?_
        rw [same]
        exact contains_emplace_iff.mpr (.inl rfl)
  · have fails : lineMatches definePattern (headText define.text) = false := by
      by_contra found
      have matched : lineMatches definePattern (headText define.text) = true := by simpa using found
      rw [text] at matched
      have single := singleLine_of_definePattern (isSpace_expandTabs white) named names stop matched
      exact dots fun c member => (List.mem_append.mp member).elim (dotted c) (single c)
    have front : '%' :: Directive.define.word <+: directiveText (headText define.text) := by
      have visible (more : List Char) : ("%define".toList ++ more).dropWhile Numerals.isSpace =
        "%define".toList ++ more := rfl
      have word : "%define".toList.map Char.toLower = '%' :: Directive.define.word := by decide
      rw [directiveText, text, visible, List.map_append, word]
      exact List.prefix_append ..
    rw [headLine_not_definePattern live front fails]
    constructor
    · rintro ⟨line, state', result, maps, -, -⟩
      obtain ⟨rfl, rfl⟩ := Prod.mk.inj (Except.ok.inj result)
      have front' : '.' :: "equ".toList <+: directiveText (headText define.text) :=
        prefix_directiveText (by decide) (reads_litNoCase _) (fun _ same => same.trans (by decide)) maps.1
      rcases List.prefix_or_prefix_of_prefix front front' with inside | inside
      · exact absurd (List.cons_prefix_cons.mp inside).1 (by decide)
      · exact absurd (List.cons_prefix_cons.mp inside).1 (by decide)
    · rintro ⟨name, value⟩
      have same := (takenName_eq_self_iff names).mpr name
      obtain ⟨single, -, -⟩ := (value_iff define.blank_separator).mpr value
      rw [whole same, List.nil_append] at dots
      exact absurd single dots

/-- A name without digits, at the beginning of a file. -/
theorem headLine_define_plain :
    let define : DefineLine := ⟨[' '], "WIDTH".toList, [' '], "80".toList, by decide, by decide, by decide, by decide⟩
    DefinesExactly (fun _ => none) [] ⟨false, false, .empty, []⟩ define
      (headLine (fun _ => none) [] 1 ⟨false, false, .empty, []⟩ define.text) := by
  intro define
  have safe : define.Safe := ⟨.inl (by decide), by decide, by decide⟩
  exact (headLine_define_iff (fun _ => none) [] 1 ⟨false, false, .empty, []⟩ define rfl).mpr safe

/-- A name with a digit at its end is cut: `A` is defined and stands for `12`. -/
theorem not_definesExactly_digit :
    let define : DefineLine := ⟨[' '], "A1".toList, [' '], "2".toList, by decide, by decide, by decide, by decide⟩
    ¬ DefinesExactly (fun _ => none) [] ⟨false, false, .empty, []⟩ define
      (headLine (fun _ => none) [] 1 ⟨false, false, .empty, []⟩ define.text) := by
  intro define
  rintro ⟨text, state', result, -, names, -⟩
  have other : ((headLine (fun _ => none) [] 1 ⟨false, false, .empty, []⟩ define.text).map fun done =>
      done.2.definition.contains "A".toList) = .ok true := by decide +kernel
  rw [result] at other
  rcases (names "A".toList).mp (Except.ok.inj other) with same | known
  · exact absurd same (by decide)
  · exact absurd known (by decide)

end Define

end Sysdarft.Coding
