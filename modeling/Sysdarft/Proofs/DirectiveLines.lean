import Sysdarft.Coding.PreProcessor

/-! # Which directive a line is

Every pattern of the preprocessor begins with white space and a literal word, and no such word is the beginning of
another. So a line is at most one directive, whatever the order in which the patterns are tried.
-/

namespace Sysdarft.Coding

open Regex

theorem isSpace_cases {c : Char} (blank : Numerals.isSpace c = true) :
    c = ' ' ∨ c = '\t' ∨ c = '\n' ∨ c = '\x0b' ∨ c = '\x0c' ∨ c = '\r' := by
  simpa [Numerals.isSpace, or_assoc] using blank

theorem reads_spaces : Reads (star space) fun word => ∀ c ∈ word, Numerals.isSpace c = true := derives_star_sat

theorem reads_gap : Reads (plus space) fun word => word ≠ [] ∧ ∀ c ∈ word, Numerals.isSpace c = true := by
  intro start word rest captures
  rw [space, derives_plus_sat, and_assoc]

theorem reads_lit (text : List Char) : Reads (lit text) fun word => word = text := derives_lit

theorem reads_litNoCase (text : List Char) :
    Reads (litNoCase text) fun word => word.map Char.toLower = text.map Char.toLower := by
  induction text with
  | nil =>
    intro start word rest captures
    simp [litNoCase]
  | cons c text ih =>
    intro start word rest captures
    rw [litNoCase, Regex.derives_seq]
    constructor
    · rintro ⟨left, right, before, after, rfl, rfl, head, tail⟩
      obtain ⟨d, same, rfl, rfl⟩ := derives_sat.mp head
      obtain ⟨later, rfl⟩ := ih.mp tail
      refine ⟨?_, rfl⟩
      have first : d.toLower = c.toLower := beq_iff_eq.mp same
      simp [first, later]
    · rintro ⟨same, rfl⟩
      cases word with
      | nil => cases same
      | cons d word =>
        obtain ⟨first, later⟩ := List.cons.inj same
        exact ⟨[d], word, [], [], rfl, rfl, derives_sat.mpr ⟨d, beq_iff_eq.mpr first, rfl, rfl⟩, ih.mpr ⟨later, rfl⟩⟩

/-- A line behind its white space, in small letters. -/
def directiveText (line : List Char) : List Char := (line.dropWhile Numerals.isSpace).map Char.toLower

/-- A line that begins with a directive has its word in front. -/
theorem prefix_directiveText {marker body : Regex} {language : List Char → Prop} {sign : Char} {word : List Char}
    (visible : Numerals.isSpace sign = false) (reads : Reads marker language)
    (folds : ∀ text, language text → text.map Char.toLower = sign :: word) {line : List Char}
    (found : lineMatches (seq (star space) (seq marker body)) line = true) : sign :: word <+: directiveText line := by
  obtain ⟨captures, derivation⟩ := fullMatch_isSome_iff.mp found
  obtain ⟨spaces, _, rfl, white, behind⟩ := reads_spaces.derives_seq.mp derivation
  obtain ⟨text, rest, rfl, member, -⟩ := reads.derives_seq.mp behind
  have folded := folds text member
  cases text with
  | nil => cases folded
  | cons c text =>
    have first : c.toLower = sign := (List.cons.inj folded).1
    have visible : Numerals.isSpace c = false := by
      by_contra blank
      have white : Numerals.isSpace c = true := by simpa using blank
      rcases isSpace_cases white with rfl | rfl | rfl | rfl | rfl | rfl <;>
        exact absurd visible (by rw [← first]; decide)
    have stripped : (spaces ++ (c :: text ++ rest)).dropWhile Numerals.isSpace = c :: text ++ rest :=
      dropWhile_append_stop white (by simpa using visible)
    rw [directiveText, stripped, List.map_append, folded]
    exact List.prefix_append ..

/-! ## The directives -/

/-- The directives with a pattern of their own. -/
inductive Directive where
  | include | define | ifdef | ifndef | else | endif | warning | error
deriving DecidableEq, Repr

namespace Directive

def pattern : Directive → Regex
  | .include => includePattern
  | .define => definePattern
  | .ifdef => ifdefPattern
  | .ifndef => ifndefPattern
  | .else => elsePattern
  | .endif => endifPattern
  | .warning => warningPattern
  | .error => errorPattern

/-- The word of a directive without the percent sign. -/
def word : Directive → List Char
  | .include => "include".toList
  | .define => "define".toList
  | .ifdef => "ifdef".toList
  | .ifndef => "ifndef".toList
  | .else => "else".toList
  | .endif => "endif".toList
  | .warning => "warning".toList
  | .error => "error".toList

variable {directive other : Directive} {line : List Char}

theorem word_front (found : lineMatches directive.pattern line = true) : '%' :: directive.word <+: directiveText line := by
  cases directive
  case endif | warning | error =>
    refine prefix_directiveText (by decide) (reads_lit _) (fun text same => same ▸ ?_) found
    decide
  all_goals
    refine prefix_directiveText (by decide) (reads_litNoCase _) (fun text same => same.trans ?_) found
    decide

theorem eq_of_front (front : '%' :: directive.word <+: '%' :: other.word) : directive = other := by
  revert front
  cases directive <;> cases other <;> decide

/-- A line is one directive at most. -/
theorem unique (directive other : Directive) (found : lineMatches directive.pattern line = true)
    (found' : lineMatches other.pattern line = true) :
    directive = other := by
  rcases List.prefix_or_prefix_of_prefix (word_front found) (word_front found') with front | front
  · exact eq_of_front front
  · exact (eq_of_front front).symm

theorem not_matches (directive other : Directive) (found : lineMatches directive.pattern line = true)
    (differs : directive ≠ other) :
    lineMatches other.pattern line = false := by
  by_contra matched
  exact differs (unique directive other found (by simpa using matched))

/-- A blank line is no directive. -/
theorem ne_nil (directive : Directive) (found : lineMatches directive.pattern line = true) : line ≠ [] := by
  rintro rfl
  have front := word_front found
  rw [directiveText, List.dropWhile_nil, List.map_nil, List.prefix_nil] at front
  cases front

end Directive

end Sysdarft.Coding
