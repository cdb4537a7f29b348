import Sysdarft.Proofs.DefineNames
import Sysdarft.Proofs.IncludeSearch
import Sysdarft.Proofs.PassedLines

/-! # The lines of a header

A header has blank lines, `.equ`, `.lab`, `%define` and `%include`. `HeaderLine.Spells` says when a text is such a line,
character by character. `HeadProcess` makes `.equ` of `%define` and a blank line of `%include`, and what it leaves
is a declarative directive or blank, so that the loop over the directives never ends inside a header.
-/

namespace Sysdarft.Coding

open Regex

/-! ## Spelling -/

/-- A text begins with the word of a directive, in either case, with white space around it. -/
def BeginsWith (directive text rest : List Char) : Prop :=
  ∃ lead word gap, text = lead ++ (word ++ (gap ++ rest)) ∧ (∀ c ∈ lead, Numerals.isSpace c = true) ∧
    word.map Char.toLower = directive.map Char.toLower ∧ gap ≠ [] ∧ ∀ c ∈ gap, Numerals.isSpace c = true

/-- Labels with commas between them, and spaces around the commas. -/
inductive LabelList : List (List Char) → List Char → Prop
  | single {name : List Char} (label : IsLabel name) : LabelList [name] name
  | cons {name before after text : List Char} {names : List (List Char)} (label : IsLabel name)
      (before_blank : ∀ c ∈ before, c = ' ') (after_blank : ∀ c ∈ after, c = ' ') (later : LabelList names text) :
      LabelList (name :: names) (name ++ (before ++ ',' :: (after ++ text)))

/-- What a line of a header is. -/
inductive HeaderLine where
  | blank
  | equ (key value : List Char)
  | lab (names : List (List Char))
  | define (name value : List Char)
  | inclusion (path : List Char)

namespace HeaderLine

/-- The texts of a line, without comment and with spaces for the tabs. A name that is defined has no digit behind a
letter, and its value no quotation mark. -/
def Spells : HeaderLine → List Char → Prop
  | .blank, text => ∀ c ∈ text, c = ' '
  | .equ key value, text =>
    ∃ before after tail, BeginsWith ".equ".toList text
        ('\'' :: (key ++ '\'' :: (before ++ ',' :: (after ++ '\'' :: (value ++ '\'' :: tail))))) ∧
      '\'' ∉ key ∧ '\'' ∉ value ∧ (∀ c ∈ before, Numerals.isSpace c = true) ∧ (∀ c ∈ after, Numerals.isSpace c = true) ∧
        ∀ c ∈ tail, Numerals.isSpace c = true
  | .lab names, text =>
    ∃ list tail, BeginsWith ".lab".toList text (list ++ tail) ∧ LabelList names list ∧ ∀ c ∈ tail, Numerals.isSpace c = true
  | .define name value, text =>
    BeginsWith "%define".toList text (name ++ value) ∧ (name ≠ [] ∧ ∀ c ∈ name, isNameChar c = true) ∧
      ((∀ c ∈ name, Numerals.isDecimal c = false) ∨ ∃ c ∈ name.head?, Numerals.isDecimal c = true) ∧
        (∀ c ∈ value.head?, isNameChar c = false) ∧ '\'' ∉ value ∧ SingleLine value
  | .inclusion path, text =>
    ∃ tail, BeginsWith "%include".toList text ('"' :: (path ++ '"' :: tail)) ∧ SingleLine path ∧
      ∀ c ∈ tail, Numerals.isSpace c = true

/-- The keys that a line adds to the replacements. -/
def keys : HeaderLine → List (List Char)
  | .equ key _ => [key]
  | .define name _ => [name]
  | _ => []

/-- The symbols that a line declares. -/
def symbols : HeaderLine → List (List Char)
  | .lab names => names
  | _ => []

/-- The names that a line defines. -/
def definitions : HeaderLine → List (List Char)
  | .define name _ => [name]
  | _ => []

/-- The headers that a line includes. -/
def includes : HeaderLine → List (List Char)
  | .inclusion path => [path]
  | _ => []

/-- What is left of a line behind `HeadProcess`. -/
def left : HeaderLine → HeaderLine
  | .define name value => .equ name (removeSpace value)
  | .inclusion _ => .blank
  | line => line

end HeaderLine

/-! ## The word in front -/

section Front

variable {directive text rest : List Char}

theorem not_isSpace_of_toLower {c sign : Char} (same : c.toLower = sign.toLower)
    (visible : Numerals.isSpace sign.toLower = false) : Numerals.isSpace c = false := by
  by_contra blank
  have white : Numerals.isSpace c = true := by simpa using blank
  rw [← same] at visible
  rcases isSpace_cases white with rfl | rfl | rfl | rfl | rfl | rfl <;> exact absurd visible (by decide)

/-- The word begins with no white space. -/
theorem head_of_folds {word : List Char} (folds : word.map Char.toLower = directive.map Char.toLower)
    (visible : ∀ c ∈ directive.head?, Numerals.isSpace c.toLower = false) :
    ∀ c ∈ word.head?, Numerals.isSpace c = false := by
  cases word with
  | nil => simp
  | cons c word =>
    cases directive with
    | nil => cases folds
    | cons sign directive =>
      rintro d ⟨⟩
      exact not_isSpace_of_toLower (List.cons.inj folds).1 (visible sign rfl)

/-- The white space in front, and the word with what is behind it. -/
theorem BeginsWith.dropWhile (begins : BeginsWith directive text rest) (nonempty : directive ≠ [])
    (visible : ∀ c ∈ directive.head?, Numerals.isSpace c.toLower = false) :
    ∃ word gap, text.dropWhile Numerals.isSpace = word ++ (gap ++ rest) ∧
      word.map Char.toLower = directive.map Char.toLower ∧ gap ≠ [] ∧ ∀ c ∈ gap, Numerals.isSpace c = true := by
  obtain ⟨lead, word, gap, rfl, white, folds, gapped, blank⟩ := begins
  have stop : ∀ c ∈ (word ++ (gap ++ rest)).head?, Numerals.isSpace c = false := by
    have named : word ≠ [] := by
      rintro rfl
      exact nonempty (List.map_eq_nil_iff.mp folds.symm)
    rw [List.head?_append_of_ne_nil _ named]
    exact head_of_folds folds visible
  exact ⟨word, gap, dropWhile_append_stop white stop, folds, gapped, blank⟩

theorem BeginsWith.visible (begins : BeginsWith directive text rest) (nonempty : directive ≠ [])
    (visible : ∀ c ∈ directive.head?, Numerals.isSpace c.toLower = false) : ∃ c ∈ text, c ≠ ' ' := by
  obtain ⟨word, gap, whole, folds, -⟩ := begins.dropWhile nonempty visible
  have stop := head_of_folds folds visible
  cases word with
  | nil => exact absurd (List.map_eq_nil_iff.mp folds.symm) nonempty
  | cons c word =>
    refine ⟨c, (List.dropWhile_suffix Numerals.isSpace).subset (by rw [whole]; exact List.mem_cons_self), ?_⟩
    rintro rfl
    exact absurd (stop ' ' rfl) (by decide)

theorem BeginsWith.directiveText (begins : BeginsWith directive text rest) (nonempty : directive ≠ [])
    (visible : ∀ c ∈ directive.head?, Numerals.isSpace c.toLower = false) :
    directive.map Char.toLower <+: directiveText text := by
  obtain ⟨word, gap, whole, folds, -⟩ := begins.dropWhile nonempty visible
  rw [Coding.directiveText, whole, List.map_append, folds]
  exact List.prefix_append ..

/-- What is behind the word and begins with no white space is determined. -/
theorem BeginsWith.unique {rest' : List Char} (begins : BeginsWith directive text rest)
    (begins' : BeginsWith directive text rest')
    (nonempty : directive ≠ []) (visible : ∀ c ∈ directive.head?, Numerals.isSpace c.toLower = false)
    (stop : ∀ c ∈ rest.head?, Numerals.isSpace c = false) (stop' : ∀ c ∈ rest'.head?, Numerals.isSpace c = false) :
    rest = rest' := by
  obtain ⟨word, gap, whole, folds, -, blank⟩ := begins.dropWhile nonempty visible
  obtain ⟨word', gap', whole', folds', -, blank'⟩ := begins'.dropWhile nonempty visible
  have lengths : word.length = word'.length := by
    rw [← List.length_map Char.toLower, folds, ← folds', List.length_map]
  obtain ⟨-, behind⟩ := List.append_inj (whole.symm.trans whole') lengths
  rw [← dropWhile_append_stop blank stop, behind, dropWhile_append_stop blank' stop']

/-- The preferred reading of a pattern that begins with a directive. -/
theorem BeginsWith.head?_run {body : Regex} {final : List Char} {captures : Captures}
    (begins : BeginsWith directive text rest) (nonempty : directive ≠ [])
    (visible : ∀ c ∈ directive.head?, Numerals.isSpace c.toLower = false)
    (stop : ∀ c ∈ rest.head?, Numerals.isSpace c = false)
    (read : ∀ start, (run body start rest).head? = some (final, captures)) :
    (run (seq (star space) (seq (litNoCase directive) (seq (plus space) body))) true text).head? =
      some (final, captures) := by
  obtain ⟨word, gap, whole, folds, gapped, blank⟩ := begins.dropWhile nonempty visible
  have spaces : (run (star space) true text).head? = some (word ++ (gap ++ rest), []) := by
    rw [space, head?_run_star_sat, whole]
  exact head?_run_seq spaces fun start => head?_run_seq (head?_run_litNoCase folds start _) fun start =>
    head?_run_seq (head?_run_gap gapped blank stop start) read

end Front

/-! ## Preferred readings -/

section Readings

variable {start : Bool} {text rest : List Char}

theorem head?_run_chr (c : Char) (start : Bool) (rest : List Char) :
    (run (chr c) start (c :: rest)).head? = some (rest, []) := by
  simp [chr, run]

theorem head?_run_spaces {blank : List Char} (white : ∀ c ∈ blank, Numerals.isSpace c = true)
    (stop : ∀ c ∈ rest.head?, Numerals.isSpace c = false) (start : Bool) :
    (run (star space) start (blank ++ rest)).head? = some (rest, []) := by
  rw [space, head?_run_star_sat, dropWhile_append_stop white stop]

theorem head?_run_quoted (index : ℕ) {inner : List Char} (plain : '\'' ∉ inner) (start : Bool) :
    (run (quoted index) start ('\'' :: (inner ++ '\'' :: rest))).head? = some (rest, [(index, inner)]) := by
  have group (start : Bool) :
      (run (group index (star (sat (· != '\'')))) start (inner ++ '\'' :: rest)).head? =
        some ('\'' :: rest, [(index, inner)]) := by
    have greedy : (run (star (sat (· != '\''))) start (inner ++ '\'' :: rest)).head? = some ('\'' :: rest, []) := by
      have all : ∀ c ∈ inner, (c != '\'') = true := fun c member => bne_iff_ne.mpr fun same => plain (same ▸ member)
      rw [head?_run_star_sat, dropWhile_append_stop all]
      rintro c ⟨⟩
      rfl
    exact head?_run_group greedy
  exact head?_run_seq (head?_run_chr ..) fun start => head?_run_seq (group start) fun start => head?_run_chr _ start _

theorem head?_run_labelWord {name : List Char} (label : IsLabel name) (stop : ∀ c ∈ rest.head?, isLabelChar c = false)
    (start : Bool) : (run labelWord start (name ++ rest)).head? = some (rest, []) := by
  obtain ⟨c, name, rfl, first, later⟩ := label
  have head : (run (sat isLabelStart) start (c :: (name ++ rest))).head? = some (name ++ rest, []) := by
    simp [run, first]
  refine head?_run_seq head fun start => ?_
  rw [head?_run_star_sat, dropWhile_append_stop later stop]

/-- What may follow the first name of a list. -/
def moreLabels : Regex := star (seq (star space) (seq (chr ',') (seq (star space) labelWord)))

theorem isSpace_eq_false_of_isLabelChar {c : Char} (inside : isLabelChar c = true) : Numerals.isSpace c = false := by
  by_contra blank
  rw [not_isLabelChar_of_isSpace (by simpa using blank)] at inside
  cases inside

theorem head?_of_all {P : Char → Prop} {first second : List Char} (all : ∀ c ∈ first, P c) (next : ∀ c ∈ second.head?, P c) :
    ∀ c ∈ (first ++ second).head?, P c := by
  cases first with
  | nil => exact next
  | cons d first =>
    rintro c ⟨⟩
    exact all d List.mem_cons_self

/-- The first name of a list, and the others read to the end. -/
theorem LabelList.head?_run {names : List (List Char)} {list tail : List Char} (listed : LabelList names list)
    (blank : ∀ c ∈ tail, Numerals.isSpace c = true) :
    ∃ name behind, list = name ++ behind ∧ IsLabel name ∧ (∀ c ∈ (behind ++ tail).head?, isLabelChar c = false) ∧
      ∀ start, (run moreLabels start (behind ++ tail)).head? = some (tail, []) := by
  have white {text : List Char} (all : ∀ c ∈ text, Numerals.isSpace c = true) : ∀ c ∈ text, isLabelChar c = false :=
    fun c member => not_isLabelChar_of_isSpace (all c member)
  induction listed with
  | @single name label =>
    refine ⟨name, [], (List.append_nil _).symm, label, fun c first => white blank c (List.mem_of_mem_head? first), ?_⟩
    intro start
    refine head?_run_star_nil (run_eq_nil fun word rest captures whole derivation => ?_)
    obtain ⟨spaces, _, rfl, -, behind⟩ := reads_spaces.derives_seq.mp derivation
    obtain ⟨_, rfl, -⟩ := derives_chr_seq.mp behind
    have comma : Numerals.isSpace ',' = true := blank ',' (by rw [List.nil_append] at whole; rw [whole]; simp)
    exact absurd comma (by decide)
  | @cons name before after text names label before_blank after_blank later ih =>
    obtain ⟨next, behind, rfl, first, stop, read⟩ := ih
    have spaces {text : List Char} (all : ∀ c ∈ text, c = ' ') : ∀ c ∈ text, Numerals.isSpace c = true :=
      fun c member => all c member ▸ rfl
    refine ⟨name, before ++ ',' :: (after ++ (next ++ behind)), rfl, label, ?_, fun start => ?_⟩
    · rw [List.append_assoc, List.cons_append]
      exact head?_of_all (white (spaces before_blank)) (by rintro c ⟨⟩; decide)
    · have whole : before ++ ',' :: (after ++ (next ++ behind)) ++ tail =
          before ++ ',' :: (after ++ (next ++ (behind ++ tail))) := by
        simp only [List.append_assoc, List.cons_append]
      have visible : ∀ c ∈ (next ++ (behind ++ tail)).head?, Numerals.isSpace c = false := by
        rw [List.head?_append_of_ne_nil _ first.ne_nil]
        exact fun c head => isSpace_eq_false_of_isLabelChar (first.isLabelChar c (List.mem_of_mem_head? head))
      have body : (run (seq (star space) (seq (chr ',') (seq (star space) labelWord))) start
          (before ++ ',' :: (after ++ (next ++ (behind ++ tail))))).head? = some (behind ++ tail, []) :=
        head?_run_seq (head?_run_spaces (spaces before_blank) (by rintro c ⟨⟩; decide) start) fun start =>
          head?_run_seq (head?_run_chr _ start _) fun start =>
            head?_run_seq (head?_run_spaces (spaces after_blank) visible start) (head?_run_labelWord first stop)
      rw [whole]
      refine head?_run_star_cons body ?_ (read false)
      simp only [List.length_append, List.length_cons]
      omega

end Readings

namespace HeaderLine

section Patterns

variable {key value name path text : List Char} {names : List (List Char)}

theorem head?_run_equ (spelled : (equ key value).Spells text) :
    (run equPattern true text).head? = some ([], [(1, key), (2, value)]) := by
  obtain ⟨before, after, tail, begins, plain, plain', white, white', blank⟩ := spelled
  refine begins.head?_run (by decide) (by decide) (by rintro c ⟨⟩; decide) fun start => ?_
  have last (start : Bool) : (run (star space) start tail).head? = some ([], []) := by
    have read := @head?_run_spaces [] tail blank (by simp) start
    rwa [List.append_nil] at read
  exact head?_run_seq (head?_run_quoted 1 plain start) fun start =>
    head?_run_seq (head?_run_spaces white (by rintro c ⟨⟩; decide) start) fun start =>
      head?_run_seq (head?_run_chr _ start _) fun start =>
        head?_run_seq (head?_run_spaces white' (by rintro c ⟨⟩; decide) start) fun start =>
          head?_run_seq (head?_run_quoted 2 plain' start) last

theorem head?_run_lab (spelled : (lab names).Spells text) :
    ∃ list, LabelList names list ∧ (run labPattern true text).head? = some ([], [(1, list)]) := by
  obtain ⟨list, tail, begins, listed, blank⟩ := spelled
  obtain ⟨first, behind, rfl, label, stop, read⟩ := listed.head?_run blank
  refine ⟨_, listed, begins.head?_run (by decide) (by decide) ?_ fun start => ?_⟩
  · rw [List.append_assoc, List.head?_append_of_ne_nil _ label.ne_nil]
    exact fun c head => isSpace_eq_false_of_isLabelChar (label.isLabelChar c (List.mem_of_mem_head? head))
  · have last (start : Bool) : (run (star space) start tail).head? = some ([], []) := by
      have read := @head?_run_spaces [] tail blank (by simp) start
      rwa [List.append_nil] at read
    have group (start : Bool) : (run (group 1 (seq labelWord moreLabels)) start (first ++ behind ++ tail)).head? =
        some (tail, [(1, first ++ behind)]) := by
      have inner : (run (seq labelWord moreLabels) start (first ++ behind ++ tail)).head? = some (tail, []) := by
        rw [List.append_assoc]
        exact head?_run_seq (head?_run_labelWord label stop start) read
      exact head?_run_group inner
    exact head?_run_seq (group start) last

theorem fullMatch_define (spelled : (define name value).Spells text) :
    fullMatch definePattern text = some [(1, name), (2, value)] := by
  obtain ⟨begins, ⟨named, names⟩, digits, stop, -, single⟩ := spelled
  obtain ⟨rest, split, -, -, whole, preferred⟩ := head?_run_macroName named names stop
  have taken := (takenName_eq_self_iff names).mpr digits
  rw [whole taken, taken, List.nil_append] at preferred
  refine fullMatch_of_head? (begins.head?_run (by decide) (by decide) ?_ fun start => ?_)
  · rw [List.head?_append_of_ne_nil _ named]
    exact fun c first => isSpace_of_isNameChar (names c (List.mem_of_mem_head? first))
  · have dotted (start : Bool) : (run (group 2 (star dot)) start (value ++ [])).head? = some ([], [(2, value)]) := by
      have greedy : (run (star dot) start (value ++ [])).head? = some ([], []) := by
        rw [dot, head?_run_star_sat, List.append_nil, List.dropWhile_eq_nil_iff.mpr single]
      exact head?_run_group greedy
    rw [List.append_nil] at dotted
    exact head?_run_seq (head?_run_group (preferred start)) dotted

end Patterns

end HeaderLine

/-! ## Includes -/

section Includes

variable {path text : List Char}

/-- All readings of a pattern that begins with a directive. -/
theorem derives_beginsWith {directive : List Char} {body : Regex} {captures : Captures} :
    Derives (seq (star space) (seq (litNoCase directive) (seq (plus space) body))) true text [] captures ↔
      ∃ rest, BeginsWith directive text rest ∧ Derives body false rest [] captures := by
  constructor
  · intro found
    obtain ⟨lead, _, rfl, white, found⟩ := reads_spaces.derives_seq.mp found
    obtain ⟨word, _, rfl, folds, found⟩ := (Reads.derives_seq (reads_litNoCase directive)).mp found
    obtain ⟨gap, rest, rfl, ⟨gapped, blank⟩, found⟩ := reads_gap.derives_seq.mp found
    refine ⟨rest, ⟨lead, word, gap, rfl, white, folds, gapped, blank⟩, ?_⟩
    rwa [List.isEmpty_eq_false_iff.mpr gapped, Bool.and_false] at found
  · rintro ⟨rest, ⟨lead, word, gap, rfl, white, folds, gapped, blank⟩, found⟩
    refine reads_spaces.derives_seq.mpr ⟨lead, _, rfl, white, ?_⟩
    refine (Reads.derives_seq (reads_litNoCase directive)).mpr ⟨word, _, rfl, folds, ?_⟩
    refine reads_gap.derives_seq.mpr ⟨gap, rest, rfl, ⟨gapped, blank⟩, ?_⟩
    rwa [List.isEmpty_eq_false_iff.mpr gapped, Bool.and_false]

theorem derives_include {captures : Captures} :
    Derives includePattern true text [] captures ↔
      ∃ path, (HeaderLine.inclusion path).Spells text ∧ captures = [(1, path)] := by
  rw [includePattern, derives_beginsWith]
  constructor
  · rintro ⟨rest, begins, found⟩
    obtain ⟨behind, rfl, quoted⟩ := derives_chr_seq.mp found
    obtain ⟨path, _, later, rfl, single, rfl, closing⟩ := reads_dots.derives_group_seq.mp quoted
    obtain ⟨tail, rfl, spaces⟩ := derives_chr_seq.mp closing
    obtain ⟨blank, rfl⟩ := reads_spaces.mp spaces
    exact ⟨path, ⟨tail, begins, single, blank⟩, rfl⟩
  · rintro ⟨path, ⟨tail, begins, single, blank⟩, rfl⟩
    refine ⟨_, begins, derives_chr_seq.mpr ⟨_, rfl, ?_⟩⟩
    refine reads_dots.derives_group_seq.mpr ⟨path, _, [], rfl, single, rfl, ?_⟩
    exact derives_chr_seq.mpr ⟨tail, rfl, reads_spaces.mpr ⟨blank, rfl⟩⟩

/-- The path of an `%include` line goes up to the last quotation mark. -/
theorem include_unique {path' : List Char} (spelled : (HeaderLine.inclusion path).Spells text)
    (spelled' : (HeaderLine.inclusion path').Spells text) : path = path' := by
  obtain ⟨tail, begins, -, blank⟩ := spelled
  obtain ⟨tail', begins', -, blank'⟩ := spelled'
  have same := begins.unique begins' (by decide) (by decide) (by rintro c ⟨⟩; decide) (by rintro c ⟨⟩; decide)
  have back {tail : List Char} (blank : ∀ c ∈ tail, Numerals.isSpace c = true) : '"' ∉ tail.reverse :=
    fun member => absurd (blank _ (List.mem_reverse.mp member)) (by decide)
  have reversed := congrArg List.reverse (List.cons.inj same).2
  simp only [List.reverse_append, List.reverse_cons, List.append_assoc, List.singleton_append] at reversed
  exact List.reverse_injective (Text.append_cons_inj (back blank) (back blank') reversed).2

theorem spells_include_iff :
    (HeaderLine.inclusion path).Spells text ↔
      lineMatches includePattern text = true ∧ capture includePattern 1 text = path := by
  constructor
  · intro spelled
    have found : fullMatch includePattern text = some [(1, path)] := by
      refine fullMatch_eq_some (derives_include.mpr ⟨path, spelled, rfl⟩) fun captures derivation => ?_
      obtain ⟨path', spelled', rfl⟩ := derives_include.mp derivation
      rw [include_unique spelled spelled']
    rw [lineMatches, capture, found]
    exact ⟨rfl, rfl⟩
  · rintro ⟨matched, rfl⟩
    obtain ⟨captures, found⟩ := Option.isSome_iff_exists.mp matched
    obtain ⟨path, spelled, rfl⟩ := derives_include.mp (fullMatch_derives found)
    rw [capture, found]
    exact spelled

end Includes

/-! ## Which directive a line is -/

namespace HeaderLine

variable {line : HeaderLine} {text : List Char}

theorem dropWhile_blank (blank : ∀ c ∈ text, c = ' ') : text.dropWhile Numerals.isSpace = [] :=
  List.dropWhile_eq_nil_iff.mpr fun c member => blank c member ▸ rfl

/-- A line of a header is no other directive of `HeadProcess` than it is spelled as. -/
theorem Spells.directive (spelled : line.Spells text) {directive : Directive}
    (found : lineMatches directive.pattern text = true) :
    (directive = .define ∧ ∃ name value, line = .define name value) ∨
      (directive = .include ∧ ∃ path, line = .inclusion path) := by
  have front := Directive.word_front found
  have dotted {word : List Char} (begins : '.' :: word <+: directiveText text) : False := by
    rcases List.prefix_or_prefix_of_prefix front begins with inside | inside
    · exact absurd (List.cons_prefix_cons.mp inside).1 (by decide)
    · exact absurd (List.cons_prefix_cons.mp inside).1 (by decide)
  cases line with
  | blank =>
    rw [directiveText, dropWhile_blank spelled] at front
    exact absurd front (by simp)
  | equ key value =>
    obtain ⟨_, _, _, begins, -⟩ := spelled
    exact (dotted (begins.directiveText (by decide) (by decide))).elim
  | lab names =>
    obtain ⟨_, _, begins, -⟩ := spelled
    exact (dotted (begins.directiveText (by decide) (by decide))).elim
  | define name value =>
    have matched : lineMatches Directive.define.pattern text = true := by
      rw [lineMatches, show Directive.define.pattern = definePattern from rfl, fullMatch_define spelled]
      rfl
    exact .inl ⟨Directive.unique _ _ found matched, name, value, rfl⟩
  | inclusion path => exact .inr ⟨Directive.unique _ .include found (spells_include_iff.mp spelled).1, path, rfl⟩

theorem Spells.not_endif (spelled : line.Spells text) : lineMatches endifPattern text = false := by
  by_contra found
  rcases @Spells.directive _ _ spelled .endif ((Bool.not_eq_false _).mp found) with ⟨same, -⟩ | ⟨same, -⟩ <;> cases same

end HeaderLine

/-! ## What `HeadProcess` leaves -/

theorem mem_headText {c : Char} {text : List Char} (member : c ∈ headText text) : isCode c = true ∧ c ≠ '\t' := by
  rw [headText_eq] at member
  rcases mem_expandTabs.mp member with ⟨inside, visible⟩ | ⟨rfl, -⟩
  · exact ⟨List.mem_takeWhile_imp inside, visible⟩
  · decide

theorem headText_of_plain {text : List Char} (plain : ∀ c ∈ text, isCode c = true ∧ c ≠ '\t') : headText text = text := by
  rw [headText_eq, List.takeWhile_eq_self_iff.mpr fun c member => (plain c member).1,
    expandTabs_of_not_mem fun tab => (plain _ tab).2 rfl]

theorem headText_headText (text : List Char) : headText (headText text) = headText text :=
  headText_of_plain fun _ => mem_headText

namespace HeaderLine

section Equ

variable {name value : List Char}

theorem spells_equLine (plain : '\'' ∉ name) (plain' : '\'' ∉ value) : (equ name value).Spells (equLine name value) := by
  have begins : BeginsWith ".equ".toList (equLine name value)
      ('\'' :: (name ++ '\'' :: ([] ++ ',' :: ([' '] ++ '\'' :: (value ++ '\'' :: []))))) :=
    ⟨[], ".equ".toList, [' '], equLine_eq name value, by simp, rfl, by simp, by decide⟩
  exact ⟨[], [' '], [], begins, plain, plain', by simp, by decide, by simp⟩

theorem mem_equLine {c : Char} (member : c ∈ equLine name value) : c ∈ name ∨ c ∈ value ∨ c ∈ ".equ ',".toList := by
  have first : ∀ d ∈ ".equ '".toList, d ∈ ".equ ',".toList := by decide
  have second : ∀ d ∈ "', '".toList, d ∈ ".equ ',".toList := by decide
  have third : ∀ d ∈ "'".toList, d ∈ ".equ ',".toList := by decide
  unfold equLine at member
  generalize ".equ '".toList = front, "', '".toList = middle, "'".toList = back at first second third member
  simp only [List.mem_append] at member
  rcases member with (((inside | inside) | inside) | inside) | inside
  · exact .inr (.inr (first c inside))
  · exact .inl inside
  · exact .inr (.inr (second c inside))
  · exact .inr (.inl inside)
  · exact .inr (.inr (third c inside))

end Equ

variable {files : FileSystem} {include_path : List (List Char)} {line_number : ℕ} {state : HeadState} {line : HeaderLine}
  {text : List Char}

/-- Lines that are skipped change nothing. -/
theorem Spells.headLine_skipped (spelled : line.Spells (headText text)) (skips : state.skipping = true) :
    headLine files include_path line_number state text = .ok ([], state) := by
  have resumes : lineMatches elsePattern (headText text) = false := by
    by_contra found
    rcases @Spells.directive _ _ spelled .else ((Bool.not_eq_false _).mp found) with ⟨same, -⟩ | ⟨same, -⟩ <;> cases same
  rw [Coding.headLine_skipped spelled.not_endif skips, resumes, if_neg Bool.false_ne_true]

/-- An `%include` line records the header. -/
theorem headLine_include {path : List Char} {content : List (List Char)} (live : state.skipping = false)
    (spelled : (inclusion path).Spells (headText text)) (own : files path = some content) :
    headLine files include_path line_number state text =
      .ok ([], { state with header_files := state.header_files ++ [⟨path, line_number, content⟩] }) := by
  obtain ⟨matched, rfl⟩ := spells_include_iff.mp spelled
  have unopened : opens text = false := by
    rw [opens, Bool.or_eq_false_iff]
    exact ⟨Directive.not_matches .include .ifdef matched (by decide),
      Directive.not_matches .include .ifndef matched (by decide)⟩
  rw [headLine_kept spelled.not_endif unopened live, keptLine]
  dsimp only
  rw [if_pos matched, processInclude_own own]
  rfl

/-- A definition becomes a replacement. -/
theorem headLine_define {name value : List Char} (live : state.skipping = false)
    (spelled : (define name value).Spells (headText text)) :
    headLine files include_path line_number state text =
      .ok (equLine name (removeSpace value),
        { state with definition := state.definition.emplace name (removeSpace value) }) :=
  headLine_definePattern live (fullMatch_define spelled) spelled.2.1.2

/-- What `HeadProcess` makes of a line while it does not skip. -/
structure Turned (line : HeaderLine) (state : HeadState) (out : List Char) (state' : HeadState) : Prop where
  spelled : line.left.Spells out
  plain : headText out = out
  live : state'.skipping = false
  defined : ∀ name, state'.definition.contains name = true ↔ name ∈ line.definitions ∨ state.definition.contains name = true

theorem Spells.headLine (spelled : line.Spells (headText text)) (live : state.skipping = false)
    (opened : ∀ path ∈ line.includes, ∃ content, files path = some content) :
    ∃ out state', Coding.headLine files include_path line_number state text = .ok (out, state') ∧
      line.Turned state out state' := by
  have undirected (plain : ∀ directive, ¬ lineMatches (Directive.pattern directive) (headText text) = true) :
      Coding.headLine files include_path line_number state text = .ok (headText text, state) := by
    rw [headLine_plain fun directive => (Bool.not_eq_true _).mp (plain directive), live, if_neg Bool.false_ne_true]
  cases line with
  | blank =>
    refine ⟨_, _, undirected fun directive found => ?_, spelled, headText_headText text, live, by simp [definitions]⟩
    rcases spelled.directive found with ⟨-, _, _, same⟩ | ⟨-, _, same⟩ <;> cases same
  | equ key value =>
    refine ⟨_, _, undirected fun directive found => ?_, spelled, headText_headText text, live, by simp [definitions]⟩
    rcases spelled.directive found with ⟨-, _, _, same⟩ | ⟨-, _, same⟩ <;> cases same
  | lab names =>
    refine ⟨_, _, undirected fun directive found => ?_, spelled, headText_headText text, live, by simp [definitions]⟩
    rcases spelled.directive found with ⟨-, _, _, same⟩ | ⟨-, _, same⟩ <;> cases same
  | define name value =>
    have turn := @headLine_define files include_path line_number _ _ _ _ live spelled
    obtain ⟨⟨lead, word, gap, whole, -⟩, ⟨-, names⟩, -, -, quote, -⟩ := spelled
    refine ⟨_, _, turn, spells_equLine (fun member => absurd (names _ member) (by decide))
      (fun member => quote (List.mem_of_mem_filter member)), headText_of_plain fun c member => ?_, live, fun other => ?_⟩
    · have inside {c : Char} (part : c ∈ name ++ value) : isCode c = true ∧ c ≠ '\t' := by
        refine @mem_headText c text ?_
        rw [whole]
        exact List.mem_append_right _ (List.mem_append_right _ (List.mem_append_right _ part))
      rcases mem_equLine member with first | second | constant
      · exact inside (List.mem_append_left _ first)
      · exact inside (List.mem_append_right _ (List.mem_of_mem_filter second))
      · exact (show ∀ c ∈ ".equ ',".toList, isCode c = true ∧ c ≠ '\t' by decide) c constant
    · rw [contains_emplace_iff, definitions, List.mem_singleton]
  | inclusion path =>
    obtain ⟨content, own⟩ := opened path (List.mem_singleton_self path)
    exact ⟨_, _, headLine_include live spelled own, by simp [left, Spells], rfl, live, by simp [definitions]⟩

end HeaderLine

/-! ## What `PreProcess` does with it -/

/-- A line that begins with one word does not begin with another. -/
theorem BeginsWith.not_lineMatches {directive text rest other : List Char} {body : Regex}
    (begins : BeginsWith directive text rest)
    (nonempty : directive ≠ [])
    (visible : ∀ c ∈ directive.head?, Numerals.isSpace c.toLower = false) (visible' : Numerals.isSpace '.' = false)
    (differs : ¬ directive.map Char.toLower <+: '.' :: other.map Char.toLower)
    (differs' : ¬ '.' :: other.map Char.toLower <+: directive.map Char.toLower) :
    lineMatches (seq (star space) (seq (litNoCase ('.' :: other)) body)) text = false := by
  by_contra found
  have front : '.' :: other.map Char.toLower <+: Coding.directiveText text :=
    prefix_directiveText visible' (fun {_ _ _ _} => reads_litNoCase ('.' :: other)) (fun _ same => same)
      ((Bool.not_eq_false _).mp found)
  rcases List.prefix_or_prefix_of_prefix (begins.directiveText nonempty visible) front with inside | inside
  · exact differs inside
  · exact differs' inside

theorem colon_of_marked {line : List Char} (marked : lineMatches lineMarkPattern line = true) : ':' ∈ line := by
  obtain ⟨captures, found⟩ := Option.isSome_iff_exists.mp marked
  have derivation := fullMatch_derives found
  rw [lineMarkPattern, derives_bol_seq, reads_spaces.derives_seq] at derivation
  obtain ⟨-, front, behind, rfl, -, marked⟩ := derivation
  obtain ⟨name, tail, later, rfl, -, -, marked⟩ := reads_labelWord.derives_group_seq.mp marked
  simp only [reads_spaces.derives_seq, derives_chr_seq] at marked
  obtain ⟨gap, _, rfl, -, _, rfl, -⟩ := marked
  simp

theorem isLineMarkerPresent_iff {markers : List LineMarker} {name : List Char} :
    isLineMarkerPresent markers name = true ↔ name ∈ markers.map LineMarker.line_marker_name := by
  simp [isLineMarkerPresent]

theorem isLineMarkerPresent_declareMarker {markers : List LineMarker} {marker name : List Char} :
    isLineMarkerPresent (declareMarker markers marker) name = true ↔
      name = marker ∨ isLineMarkerPresent markers name = true := by
  rw [declareMarker]
  split_ifs with known
  · constructor
    · exact .inr
    · rintro (rfl | present)
      · exact known
      · exact present
  · rw [isLineMarkerPresent_iff, List.map_append, List.mem_append, List.map_singleton, List.mem_singleton, or_comm,
      ← isLineMarkerPresent_iff]

theorem isLineMarkerPresent_foldl {names : List (List Char)} {markers : List LineMarker} {name : List Char} :
    isLineMarkerPresent (names.foldl declareMarker markers) name = true ↔
      name ∈ names ∨ isLineMarkerPresent markers name = true := by
  induction names generalizing markers with
  | nil => simp
  | cons first names ih => rw [List.foldl_cons, ih, isLineMarkerPresent_declareMarker, List.mem_cons, or_left_comm, or_assoc]

section Labels

variable {names : List (List Char)} {list : List Char}

theorem LabelList.isLabel (listed : LabelList names list) : names ≠ [] ∧ ∀ name ∈ names, IsLabel name := by
  induction listed with
  | single label => exact ⟨by simp, fun other member => List.mem_singleton.mp member ▸ label⟩
  | cons label _ _ _ ih =>
    refine ⟨by simp, fun other member => ?_⟩
    rcases List.mem_cons.mp member with rfl | later
    · exact label
    · exact ih.2 other later

theorem LabelList.chars {names : List (List Char)} {list : List Char} (listed : LabelList names list) :
    ∀ c ∈ list, isLabelChar c = true ∨ c = ' ' ∨ c = ',' := by
  induction listed with
  | single label => exact fun c member => .inl (label.isLabelChar c member)
  | cons label before_blank after_blank _ ih =>
    intro c member
    simp only [List.mem_append, List.mem_cons] at member
    rcases member with name | before | rfl | after | later
    · exact .inl (label.isLabelChar c name)
    · exact .inr (.inl (before_blank c before))
    · exact .inr (.inr rfl)
    · exact .inr (.inl (after_blank c after))
    · exact ih c later

/-- Without its spaces, a list is the names with commas between them. -/
theorem LabelList.removeSpace (listed : LabelList names list) : Coding.removeSpace list = [','].intercalate names := by
  have whole {name : List Char} (label : IsLabel name) : Coding.removeSpace name = name :=
    List.filter_eq_self.mpr fun c member =>
      bne_iff_ne.mpr fun same => absurd (label.isLabelChar c member) (by rw [same]; decide)
  have gone {text : List Char} (blank : ∀ c ∈ text, c = ' ') : Coding.removeSpace text = [] :=
    List.filter_eq_nil_iff.mpr fun c member => by simp [blank c member]
  induction listed with
  | single label => rw [whole label]; simp [List.intercalate]
  | @cons name before after text names label before_blank after_blank later ih =>
    obtain ⟨next, rest, rfl⟩ := List.exists_cons_of_ne_nil later.isLabel.1
    have split : Coding.removeSpace (name ++ (before ++ ',' :: (after ++ text))) =
        Coding.removeSpace name ++
          (Coding.removeSpace before ++ ',' :: (Coding.removeSpace after ++ Coding.removeSpace text)) := by
      simp [Coding.removeSpace]
    rw [split, whole label, gone before_blank, gone after_blank, ih]
    simp [List.intercalate]

/-- The names come back. -/
theorem LabelList.splitString (listed : LabelList names list) : Coding.splitString (replaceAll list [' '] []) = names := by
  obtain ⟨nonempty, labels⟩ := listed.isLabel
  have away : ∀ name ∈ names, ',' ∉ name := fun name member comma =>
    absurd ((labels name member).isLabelChar ',' comma) (by decide)
  have pieces : (replaceAll list [' '] []).splitOn ',' = names := by
    rw [replaceAll_space, listed.removeSpace, List.splitOn_intercalate ',' away nonempty]
  have last : ¬ names.getLast? = some [] := fun last => (labels [] (List.mem_of_getLast? last)).ne_nil rfl
  rw [Coding.splitString, pieces, if_neg last]

end Labels

namespace HeaderLine

variable {line : HeaderLine} {text : List Char}

theorem left_cases (line : HeaderLine) :
    (line.left = .blank ∧ line.keys = [] ∧ line.symbols = []) ∨
      (∃ key value, line.left = .equ key value ∧ line.keys = [key] ∧ line.symbols = []) ∨
        ∃ names, line.left = .lab names ∧ line.keys = [] ∧ line.symbols = names := by
  cases line with
  | blank => exact .inl ⟨rfl, rfl, rfl⟩
  | equ key value => exact .inr (.inl ⟨key, value, rfl, rfl, rfl⟩)
  | lab names => exact .inr (.inr ⟨names, rfl, rfl, rfl⟩)
  | define name value => exact .inr (.inl ⟨name, _, rfl, rfl, rfl⟩)
  | inclusion path => exact .inl ⟨rfl, rfl, rfl⟩

theorem Spells.processEqu {key value : List Char} (spelled : (equ key value).Spells text)
    (equ_replacement : OrderedMap (List Char) (List Char)) :
    Coding.processEqu text equ_replacement = equ_replacement.emplace key value := by
  obtain ⟨found, hit, captures⟩ := search_of_head? (head?_run_equ spelled)
  rw [Coding.processEqu, hit]
  dsimp only
  rw [captures]
  rfl

theorem Spells.processLab {names : List (List Char)} (spelled : (lab names).Spells text) (markers : List LineMarker) :
    Coding.processLab text markers = names.foldl declareMarker markers := by
  obtain ⟨list, listed, read⟩ := head?_run_lab spelled
  obtain ⟨found, hit, captures⟩ := search_of_head? read
  rw [Coding.processLab, hit]
  dsimp only
  rw [captures]
  change (splitString (replaceAll list [' '] [])).foldl declareMarker markers = _
  rw [listed.splitString]

/-- A directive does to the tables what its line says. -/
structure Declares (line : HeaderLine) (tables tables' : Tables) : Prop where
  definition : tables'.definition = tables.definition
  keys : ∀ key, tables'.equ_replacement.contains key = true ↔
    key ∈ line.keys ∨ tables.equ_replacement.contains key = true
  symbols : ∀ name, isLineMarkerPresent tables'.defined_line_marker name = true ↔
    name ∈ line.symbols ∨ isLineMarkerPresent tables.defined_line_marker name = true

/-- The loop over the directives goes on behind a line of a header. -/
theorem Spells.declare (spelled : line.left.Spells text) (tables : Tables) :
    (isLineEmpty text = true ∧ line.keys = [] ∧ line.symbols = []) ∨
      (isLineEmpty text = false ∧ ∃ tables', Coding.declare text tables = some tables' ∧ line.Declares tables tables') := by
  have filled {c : Char} (member : c ∈ text) (visible : c ≠ ' ') : isLineEmpty text = false := by
    by_contra blank
    exact visible ((isLineEmpty_iff text).mp ((Bool.not_eq_false _).mp blank) c member)
  rcases left_cases line with ⟨same, keys, symbols⟩ | ⟨key, value, same, keys, symbols⟩ | ⟨names, same, keys, symbols⟩
  · rw [same] at spelled
    exact .inl ⟨(isLineEmpty_iff text).mpr spelled, keys, symbols⟩
  · rw [same] at spelled
    have matched : lineMatches equPattern text = true := by
      rw [lineMatches, fullMatch_of_head? (head?_run_equ spelled)]
      rfl
    have table := spelled.processEqu tables.equ_replacement
    obtain ⟨_, _, _, begins, -⟩ := spelled
    have org : lineMatches orgPattern text = false :=
      begins.not_lineMatches (by decide) (by decide) (by decide) (by decide) (by decide)
    have lab : lineMatches labPattern text = false :=
      begins.not_lineMatches (by decide) (by decide) (by decide) (by decide) (by decide)
    have visible : '\'' ∈ text := by
      obtain ⟨lead, word, gap, rfl, -⟩ := begins
      simp
    refine .inr ⟨filled visible (by decide), { tables with equ_replacement := tables.equ_replacement.emplace key value }, ?_,
      rfl, fun other => ?_, fun name => ?_⟩
    · rw [Coding.declare, org, lab, matched, if_neg Bool.false_ne_true, if_neg Bool.false_ne_true, if_pos rfl, table]
    · rw [keys, List.mem_singleton]
      exact contains_emplace_iff
    · simp [symbols]
  · rw [same] at spelled
    have matched : lineMatches labPattern text = true := by
      obtain ⟨list, -, read⟩ := head?_run_lab spelled
      rw [lineMatches, fullMatch_of_head? read]
      rfl
    have table := spelled.processLab tables.defined_line_marker
    obtain ⟨list, tail, begins, -⟩ := spelled
    have org : lineMatches orgPattern text = false :=
      begins.not_lineMatches (by decide) (by decide) (by decide) (by decide) (by decide)
    obtain ⟨c, inside, visible⟩ := begins.visible (by decide) (by decide)
    refine .inr ⟨filled inside visible,
      { tables with defined_line_marker := names.foldl declareMarker tables.defined_line_marker },
      ?_, rfl, fun key => ?_, fun name => ?_⟩
    · rw [Coding.declare, org, matched, if_neg Bool.false_ne_true, if_pos rfl, table]
    · simp [keys]
    · rw [symbols]
      exact isLineMarkerPresent_foldl

/-- What is left of a line is no label. -/
theorem Spells.unmarked (spelled : line.left.Spells text) : lineMatches lineMarkPattern text = false := by
  by_contra found
  have marked := (Bool.not_eq_false _).mp found
  rcases left_cases line with ⟨same, -⟩ | ⟨key, value, same, -⟩ | ⟨names, same, -⟩
  all_goals rw [same] at spelled
  · exact absurd (spelled ':' (colon_of_marked marked)) (by decide)
  · obtain ⟨_, _, _, ⟨lead, word, gap, rfl, -⟩, -⟩ := spelled
    rcases (labelOf_shape marked).1 '\'' (by simp) with inside | same | blank
    · exact absurd inside (by decide)
    · exact absurd same (by decide)
    · exact absurd blank (by decide)
  · obtain ⟨list, tail, ⟨lead, word, gap, rfl, white, folds, -, blank⟩, listed, blank'⟩ := spelled
    have colon := colon_of_marked marked
    simp only [List.mem_append] at colon
    rcases colon with inside | inside | inside | inside | inside
    · exact absurd (white _ inside) (by decide)
    · have folded : ':' ∈ ".lab".toList.map Char.toLower := by
        rw [← folds]
        exact List.mem_map.mpr ⟨':', inside, rfl⟩
      exact absurd folded (by decide)
    · exact absurd (blank _ inside) (by decide)
    · exact absurd (listed.chars _ inside) (by decide)
    · exact absurd (blank' _ inside) (by decide)

end HeaderLine

/-! ## Scans of headers -/

section Scans

variable {files : FileSystem} {include_path : List (List Char)} {line_number : ℕ} {state state' : HeadState}

/-- Lines as they stand in a header. -/
abbrev SpelledLines (lines : List HeaderLine) (texts : List (List Char)) : Prop :=
  List.Forall₂ (fun line text => line.Spells (headText text)) lines texts

/-- Lines as `HeadProcess` leaves them. -/
abbrev LeftLines (lines : List HeaderLine) (texts : List (List Char)) : Prop :=
  List.Forall₂ (fun line text => line.left.Spells text ∧ headText text = text) lines texts

theorem headLines_spelled {lines : List HeaderLine} {texts : List (List Char)} (spelled : SpelledLines lines texts)
    (live : state.skipping = false)
    (opened : ∀ line ∈ lines, ∀ path ∈ line.includes, ∃ content, files path = some content) :
    ∃ out last, headLines files include_path line_number state texts = .ok (out, last) ∧ LeftLines lines out ∧
      last.skipping = false ∧ ∀ name, last.definition.contains name = true ↔
        (∃ line ∈ lines, name ∈ line.definitions) ∨ state.definition.contains name = true := by
  induction spelled generalizing line_number state with
  | nil => exact ⟨[], state, rfl, .nil, live, by simp⟩
  | @cons line text lines texts first later ih =>
    obtain ⟨out, middle, turn, turned⟩ :=
      @HeaderLine.Spells.headLine files include_path line_number _ _ _ first live (opened line List.mem_cons_self)
    obtain ⟨outs, last, more, left, live', defined⟩ :=
      @ih (line_number + 1) _ turned.live fun other member => opened other (List.mem_cons_of_mem _ member)
    refine ⟨out :: outs, last, ?_, .cons ⟨turned.spelled, turned.plain⟩ left, live', fun name => ?_⟩
    · rw [headLines]
      exact Effects.except_bind_eq_ok.mpr ⟨_, turn, Effects.except_bind_eq_ok.mpr ⟨_, more, rfl⟩⟩
    · rw [defined, turned.defined, List.exists_mem_cons_iff, or_assoc, or_left_comm]

theorem headLines_skipped {lines : List HeaderLine} {texts : List (List Char)} (spelled : SpelledLines lines texts)
    (skips : state.skipping = true) :
    headLines files include_path line_number state texts = .ok (texts.map fun _ => [], state) := by
  induction spelled generalizing line_number with
  | nil => rfl
  | cons first later ih =>
    rw [headLines, first.headLine_skipped skips]
    exact Effects.except_bind_eq_ok.mpr ⟨_, rfl, Effects.except_bind_eq_ok.mpr ⟨_, ih, rfl⟩⟩

/-- The headers recorded for some lines stand in the order of the lines, each for a line that includes it. -/
structure RecordedHeaders (files : FileSystem) (line_number : ℕ) (texts : List (List Char)) (headers : List IncludeFile) :
    Prop where
  ordered : (headers.map IncludeFile.appearance_at_line_num).Pairwise (· < ·)
  placed : ∀ header ∈ headers, line_number ≤ header.appearance_at_line_num ∧
    header.appearance_at_line_num < line_number + texts.length
  spelled : ∀ header ∈ headers, ∃ text ∈ texts, (HeaderLine.inclusion header.file_name).Spells (headText text)
  opened : ∀ header ∈ headers, ∀ content, files header.file_name = some content → header.content = content

theorem headLine_recorded {text out : List Char}
    (done : headLine files include_path line_number state text = .ok (out, state')) :
    ∃ headers, state'.header_files = state.header_files ++ headers ∧ RecordedHeaders files line_number [text] headers := by
  have nothing (same : state'.header_files = state.header_files) :
      ∃ headers, state'.header_files = state.header_files ++ headers ∧ RecordedHeaders files line_number [text] headers :=
    ⟨[], by rw [same, List.append_nil], .nil, by simp, by simp, by simp⟩
  cases ends : lineMatches endifPattern (headText text) with
  | true =>
    rw [headLine_endif ends] at done
    cases done
    exact nothing rfl
  | false =>
    cases skips : state.skipping with
    | true =>
      rw [headLine_skipped ends skips] at done
      split_ifs at done <;> cases done <;> exact nothing rfl
    | false =>
      cases opened : opens text with
      | true =>
        rw [headLine_opens opened skips] at done
        cases done
        exact nothing rfl
      | false =>
        rw [headLine_kept ends opened skips] at done
        obtain ⟨⟨line, definition, header_files⟩, kept, same⟩ := Effects.except_map_eq_ok.mp done
        cases same
        simp only [keptLine] at kept
        split_ifs at kept with includes
        · obtain ⟨file, found, same⟩ := Effects.except_map_eq_ok.mp kept
          cases same
          have shape : file.file_name = capture includePattern 1 (headText text) ∧
              file.appearance_at_line_num = line_number := by
            rw [processInclude] at found
            split_ifs at found
            all_goals
              cases found
              exact ⟨rfl, rfl⟩
          refine ⟨[file], rfl, List.pairwise_singleton _ _, ?_, ?_, ?_⟩
          · simp [shape.2]
          · simpa using spells_include_iff.mpr ⟨includes, shape.1.symm⟩
          · intro header member content own
            obtain rfl := List.mem_singleton.mp member
            rw [shape.1] at own
            rw [processInclude_own own] at found
            cases found
            rfl
        · cases kept
          exact nothing rfl
        · cases kept
          exact nothing rfl

theorem headLines_recorded {texts out : List (List Char)}
    (done : headLines files include_path line_number state texts = .ok (out, state')) :
    ∃ headers, state'.header_files = state.header_files ++ headers ∧ RecordedHeaders files line_number texts headers := by
  induction texts generalizing line_number state out with
  | nil =>
    cases done
    exact ⟨[], (List.append_nil _).symm, .nil, by simp, by simp, by simp⟩
  | cons text texts ih =>
    rw [headLines] at done
    obtain ⟨⟨line, middle⟩, turn, done⟩ := Effects.except_bind_eq_ok.mp done
    obtain ⟨⟨lines, last⟩, more, same⟩ := Effects.except_bind_eq_ok.mp done
    cases same
    obtain ⟨first, front, here⟩ := headLine_recorded turn
    obtain ⟨later, back, behind⟩ := ih more
    refine ⟨first ++ later, by rw [back, front, List.append_assoc], ?_, fun header member => ?_, fun header member => ?_,
      fun header member => ?_⟩
    · rw [List.map_append, List.pairwise_append]
      refine ⟨here.ordered, behind.ordered, fun n early m late => ?_⟩
      obtain ⟨header, member, rfl⟩ := List.mem_map.mp early
      obtain ⟨other, member', rfl⟩ := List.mem_map.mp late
      have bound := (here.placed header member).2
      have bound' := (behind.placed other member').1
      rw [List.length_singleton] at bound
      omega
    all_goals rcases List.mem_append.mp member with early | late
    · have bounds := here.placed header early
      rw [List.length_singleton] at bounds
      rw [List.length_cons]
      omega
    · have bounds := behind.placed header late
      rw [List.length_cons]
      omega
    · obtain ⟨text', inside, spelled⟩ := here.spelled header early
      exact ⟨text', List.mem_singleton.mp inside ▸ List.mem_cons_self, spelled⟩
    · obtain ⟨text', inside, spelled⟩ := behind.spelled header late
      exact ⟨text', List.mem_cons_of_mem _ inside, spelled⟩
    · exact here.opened header early
    · exact behind.opened header late

/-- An `%include` line that is not skipped is recorded. -/
theorem mem_headers_of_include {before after out : List (List Char)} {text path : List Char} {content : List (List Char)}
    (done : headLines files include_path line_number state (before ++ text :: after) = .ok (out, state'))
    (live : ∀ earlier reached, headLines files include_path line_number state before = .ok (earlier, reached) →
      reached.skipping = false)
    (spelled : (HeaderLine.inclusion path).Spells (headText text)) (own : files path = some content) :
    ⟨path, line_number + before.length, content⟩ ∈ state'.header_files := by
  obtain ⟨earlier, reached, later, first, second, rfl⟩ := headLines_append.mp done
  rw [headLines, HeaderLine.headLine_include (live earlier reached first) spelled own] at second
  obtain ⟨⟨line, middle⟩, turn, second⟩ := Effects.except_bind_eq_ok.mp second
  obtain ⟨⟨lines, last⟩, more, same⟩ := Effects.except_bind_eq_ok.mp second
  cases turn
  cases same
  obtain ⟨headers, back, -⟩ := headLines_recorded more
  rw [back]
  exact List.mem_append_left _ (List.mem_append_right _ (List.mem_singleton_self _))

/-- The header that `PreProcess` finds for the line it was recorded for. -/
theorem RecordedHeaders.headerInThisLine {texts : List (List Char)} {headers : List IncludeFile} {header : IncludeFile}
    (recorded : RecordedHeaders files line_number texts headers) (member : header ∈ headers)
    (named : header.file_name ≠ []) :
    Coding.headerInThisLine headers header.appearance_at_line_num = some header := by
  have ordered := recorded.ordered
  clear recorded
  have found : headers.find? (fun other => other.appearance_at_line_num == header.appearance_at_line_num) = some header := by
    induction headers with
    | nil => cases member
    | cons other headers ih =>
      rw [List.map_cons, List.pairwise_cons] at ordered
      rcases List.mem_cons.mp member with rfl | later
      · exact List.find?_cons_of_pos (beq_self_eq_true _)
      · have less := ordered.1 _ (List.mem_map.mpr ⟨header, later, rfl⟩)
        rw [List.find?_cons_of_neg (by simpa using less.ne)]
        exact ih later ordered.2
  rw [Coding.headerInThisLine, found, Option.filter_some, if_pos (by simpa using named)]

end Scans

end Sysdarft.Coding
