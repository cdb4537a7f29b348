import Sysdarft.Proofs.HeaderLines

/-! # Headers with guards

A header that is enclosed in a conditional on a name of its own, which it defines first. When the name is defined, nothing
is left of the header behind `HeadProcess`; otherwise its lines are, the name is defined, and what it includes is recorded.
A `HeaderLibrary` is a set of such headers that include each other, with a name of its own for each of them.
-/

namespace Sysdarft.Coding

open Regex

/-! ## Headers with guards -/

/-- A header: blank lines, `%ifndef` with the guard, its definition, the body, `%endif`, blank lines. -/
structure GuardedHeader where
  path : List Char
  guard : List Char
  value : List Char
  body : List HeaderLine
  before : List (List Char)
  opening : List Char
  inner : List (List Char)
  closing : List Char
  after : List (List Char)
  named : path ≠ []
  letters : guard ≠ [] ∧ ∀ c ∈ guard, isLetter c = true
  blank : ∀ text ∈ before ++ after, HeaderLine.blank.Spells (headText text)
  enters : ∃ tail, BeginsWith "%ifndef".toList (headText opening) (guard ++ tail) ∧ ∀ c ∈ tail, Numerals.isSpace c = true
  spelled : SpelledLines (.define guard value :: body) inner
  leaves : ∃ lead tail, headText closing = lead ++ ("%endif".toList ++ tail) ∧ (∀ c ∈ lead, Numerals.isSpace c = true) ∧
    ∀ c ∈ tail, Numerals.isSpace c = true

namespace GuardedHeader

/-- The lines between `%ifndef` and `%endif`. -/
def lines (header : GuardedHeader) : List HeaderLine := .define header.guard header.value :: header.body

/-- The text of the header. -/
def content (header : GuardedHeader) : List (List Char) :=
  header.before ++ header.opening :: (header.inner ++ header.closing :: header.after)

/-- The header as it is recorded for a line. -/
def recorded (header : GuardedHeader) (line_number : ℕ) : IncludeFile := ⟨header.path, line_number, header.content⟩

end GuardedHeader

/-- A finite set of headers that include each other, with a guard of its own for each of them. -/
structure HeaderLibrary (files : FileSystem) where
  headers : List GuardedHeader
  opened : ∀ header ∈ headers, files header.path = some header.content
  closed : ∀ header ∈ headers, ∀ line ∈ header.body, ∀ path ∈ line.includes, ∃ other ∈ headers, other.path = path
  paths : (headers.map GuardedHeader.path).Nodup
  guards : (headers.map GuardedHeader.guard).Nodup
  unguarded : ∀ header ∈ headers, ∀ line ∈ header.body, ∀ other ∈ headers, other.guard ∉ line.definitions

/-! ## `HeadProcess` of a header -/

section Heads

variable {files : FileSystem} {include_path : List (List Char)} {definition : Definitions}

theorem headLines_turn {line_number : ℕ} {state middle last : HeadState} {line text : List Char}
    {rest lines : List (List Char)}
    (turn : headLine files include_path line_number state line = .ok (text, middle))
    (more : headLines files include_path (line_number + 1) middle rest = .ok (lines, last)) :
    headLines files include_path line_number state (line :: rest) = .ok (text :: lines, last) := by
  rw [headLines]
  exact Effects.except_bind_eq_ok.mpr ⟨_, turn, Effects.except_bind_eq_ok.mpr ⟨_, more, rfl⟩⟩

/-- Lines without text change nothing, and stay without text. -/
theorem headLines_blank {texts : List (List Char)} (blank : ∀ text ∈ texts, HeaderLine.blank.Spells (headText text))
    (line_number : ℕ) (state : HeadState) :
    ∃ out, headLines files include_path line_number state texts = .ok (out, state) ∧
      LeftLines (texts.map fun _ => .blank) out := by
  induction texts generalizing line_number with
  | nil => exact ⟨[], rfl, .nil⟩
  | cons text texts ih =>
    have spelled := blank text List.mem_cons_self
    obtain ⟨out, more, left⟩ := ih (fun other member => blank other (List.mem_cons_of_mem _ member)) (line_number + 1)
    have plain (directive : Directive) : lineMatches directive.pattern (headText text) = false := by
      by_contra found
      rcases spelled.directive ((Bool.not_eq_false _).mp found) with ⟨-, _, _, same⟩ | ⟨-, _, same⟩ <;> cases same
    refine ⟨_, headLines_turn (headLine_plain plain) more, .cons ?_ left⟩
    split_ifs
    · exact ⟨by simp [HeaderLine.left, HeaderLine.Spells], rfl⟩
    · exact ⟨spelled, headText_headText text⟩

/-- The line with the guard. -/
theorem GuardedHeader.selects (header : GuardedHeader) (definition : Definitions) :
    opens header.opening = true ∧ Coding.selects header.opening definition = !definition.contains header.guard := by
  obtain ⟨tail, begins, blank⟩ := header.enters
  obtain ⟨nonempty, letters⟩ := header.letters
  have stop : ∀ c ∈ (header.guard ++ tail).head?, Numerals.isSpace c = false := by
    rw [List.head?_append_of_ne_nil _ nonempty]
    exact fun c first => isSpace_of_isNameChar (isNameChar_of_isLetter (letters c (List.mem_of_mem_head? first)))
  have behind : ∀ c ∈ tail.head?, isLetter c = false := by
    intro c first
    by_contra letter
    have visible := isSpace_of_isNameChar (isNameChar_of_isLetter ((Bool.not_eq_false _).mp letter))
    rw [blank c (List.mem_of_mem_head? first)] at visible
    cases visible
  have last (start : Bool) : (run (star space) start tail).head? = some ([], []) := by
    have read := @head?_run_spaces [] tail blank (by simp) start
    rwa [List.append_nil] at read
  have found : fullMatch ifndefPattern (headText header.opening) = some [(1, header.guard)] :=
    fullMatch_of_head? (begins.head?_run (by decide) (by decide) stop fun start =>
      head?_run_seq (head?_run_group (head?_run_macroName_letters nonempty letters behind)) last)
  have matched : lineMatches Directive.ifndef.pattern (headText header.opening) = true := by
    rw [lineMatches, show Directive.ifndef.pattern = ifndefPattern from rfl, found]
    rfl
  have differs : lineMatches ifdefPattern (headText header.opening) = false :=
    Directive.not_matches .ifndef .ifdef matched (by decide)
  constructor
  · rw [Coding.opens, show lineMatches ifndefPattern (headText header.opening) = true from matched, Bool.or_true]
  · rw [Coding.selects, differs, if_neg Bool.false_ne_true, capture, found]
    rfl

theorem GuardedHeader.endif (header : GuardedHeader) : lineMatches endifPattern (headText header.closing) = true := by
  obtain ⟨lead, tail, whole, white, blank⟩ := header.leaves
  exact endif_iff.mpr ⟨lead, _, tail, whole, white, rfl, blank⟩

/-- Lines without text stay lines without text. -/
theorem leftLines_blank {texts out : List (List Char)} (left : LeftLines (texts.map fun _ => .blank) out) :
    ∀ text ∈ out, isLineEmpty text = true := by
  intro text member
  have each := List.forall₂_map_left_iff.mp left
  clear left
  induction each with
  | nil => cases member
  | cons first later ih =>
    rcases List.mem_cons.mp member with rfl | inside
    · exact (isLineEmpty_iff _).mpr first.1
    · exact ih inside

/-- With its guard defined, nothing is left of a header. -/
theorem GuardedHeader.headProcess_known (header : GuardedHeader) (known : definition.contains header.guard = true) :
    ∃ file, headProcess files include_path header.content definition [] = .ok (file, definition, []) ∧
      ∀ text ∈ file, isLineEmpty text = true := by
  obtain ⟨opened, selected⟩ := header.selects definition
  rw [known, Bool.not_true] at selected
  obtain ⟨first, early, left⟩ := @headLines_blank files include_path _
    (fun text member => header.blank text (List.mem_append_left _ member)) 1 ⟨false, false, definition, []⟩
  have enters := @headLine_opens files include_path (1 + header.before.length) ⟨false, false, definition, []⟩ _ opened rfl
  rw [selected] at enters
  have skipped := @headLines_skipped files include_path (1 + header.before.length + 1)
    (HeadState.opened ⟨false, false, definition, []⟩ false) _ _ header.spelled rfl
  have leaves := @headLine_endif files include_path (1 + header.before.length + 1 + header.inner.length)
    (HeadState.opened ⟨false, false, definition, []⟩ false) _ header.endif
  obtain ⟨last, late, left'⟩ := @headLines_blank files include_path _
    (fun text member => header.blank text (List.mem_append_right _ member))
    (1 + header.before.length + 1 + header.inner.length + 1) (HeadState.opened ⟨false, false, definition, []⟩ false).closed
  refine ⟨first ++ [] :: (header.inner.map (fun _ => []) ++ [] :: last), ?_, fun text member => ?_⟩
  · refine Effects.except_map_eq_ok.mpr ⟨(_, (HeadState.opened ⟨false, false, definition, []⟩ false).closed), ?_, rfl⟩
    refine headLines_append.mpr ⟨first, _, _, early, headLines_turn enters ?_, rfl⟩
    exact headLines_append.mpr ⟨_, _, _, skipped, headLines_turn leaves late, rfl⟩
  · simp only [List.mem_append, List.mem_cons, List.mem_map] at member
    rcases member with first | rfl | ⟨_, -, rfl⟩ | rfl | last
    · exact leftLines_blank left text first
    · rfl
    · rfl
    · rfl
    · exact leftLines_blank left' text last

/-- Without its guard, the lines of a header are read one after the other. -/
theorem GuardedHeader.headLines_new (header : GuardedHeader) (new : definition.contains header.guard = false)
    {lines : List HeaderLine} {texts : List (List Char)} (spelled : SpelledLines lines texts)
    (opened : ∀ line ∈ lines, ∀ path ∈ line.includes, ∃ content, files path = some content) :
    ∃ out reached, headLines files include_path 1 ⟨false, false, definition, []⟩ (header.before ++ header.opening :: texts) =
        .ok (out, reached) ∧
      LeftLines (header.before.map (fun _ => .blank) ++ .blank :: lines) out ∧ reached.skipping = false ∧
        ∀ name, reached.definition.contains name = true ↔
          (∃ line ∈ lines, name ∈ line.definitions) ∨ definition.contains name = true := by
  obtain ⟨opens, selected⟩ := header.selects definition
  rw [new, Bool.not_false] at selected
  obtain ⟨first, early, left⟩ := @headLines_blank files include_path _
    (fun text member => header.blank text (List.mem_append_left _ member)) 1 ⟨false, false, definition, []⟩
  have enters := @headLine_opens files include_path (1 + header.before.length) ⟨false, false, definition, []⟩ _ opens rfl
  rw [selected] at enters
  obtain ⟨out, reached, more, left', live, defined⟩ := @headLines_spelled files include_path (1 + header.before.length + 1)
    (HeadState.opened ⟨false, false, definition, []⟩ true) _ _ spelled rfl opened
  refine ⟨first ++ [] :: out, reached, headLines_append.mpr ⟨first, _, _, early, headLines_turn enters more, rfl⟩, ?_, live,
    defined⟩
  exact List.rel_append left (.cons ⟨by simp [HeaderLine.left, HeaderLine.Spells], rfl⟩ left')

end Heads

/-! ## What a header leaves -/

section Reads

variable {files : FileSystem} {include_path : List (List Char)} {definition : Definitions} {header : GuardedHeader}

/-- What is left of a header whose guard is not defined. -/
structure HeaderRead (files : FileSystem) (header : GuardedHeader) (definition : Definitions) (file : List (List Char))
    (definition' : Definitions) (headers : List IncludeFile) : Prop where
  left : ∃ lines, LeftLines lines file ∧ (∀ line ∈ header.lines, line ∈ lines) ∧
    ∀ line ∈ lines, line ∈ header.lines ∨ line = .blank
  defined : ∀ name, definition'.contains name = true ↔
    (∃ line ∈ header.lines, name ∈ line.definitions) ∨ definition.contains name = true
  recorded : RecordedHeaders files 1 header.content headers
  length : file.length = header.content.length
  included : ∀ line ∈ header.lines, ∀ path ∈ line.includes, ∃ other ∈ headers, other.file_name = path

theorem HeaderLibrary.opened_lines (library : HeaderLibrary files) (member : header ∈ library.headers) :
    ∀ line ∈ header.lines, ∀ path ∈ line.includes, ∃ content, files path = some content := by
  intro line inside path included
  rcases List.mem_cons.mp inside with rfl | body
  · cases included
  · obtain ⟨other, known, rfl⟩ := library.closed header member line body path included
    exact ⟨_, library.opened other known⟩

theorem forall₂_split {α β : Type} {R : α → β → Prop} {first : List α} {second : List β} {a : α}
    (related : List.Forall₂ R first second) (member : a ∈ first) :
    ∃ before after before' b after', first = before ++ a :: after ∧ second = before' ++ b :: after' ∧
      List.Forall₂ R before before' ∧ R a b := by
  induction related with
  | nil => cases member
  | @cons x y first second here later ih =>
    rcases List.mem_cons.mp member with rfl | inside
    · exact ⟨[], first, [], y, second, rfl, rfl, .nil, here⟩
    · obtain ⟨before, after, before', b, after', rfl, rfl, front, holds⟩ := ih inside
      exact ⟨x :: before, after, y :: before', b, after', rfl, rfl, .cons here front, holds⟩

/-- An `%include` line of a header includes a header of the library. -/
theorem HeaderLibrary.closed_text (library : HeaderLibrary files) (member : header ∈ library.headers) {text path : List Char}
    (inside : text ∈ header.content) (spelled : (HeaderLine.inclusion path).Spells (headText text)) :
    ∃ other ∈ library.headers, other.path = path := by
  have matched : lineMatches Directive.include.pattern (headText text) = true := (spells_include_iff.mp spelled).1
  have blank (around : text ∈ header.before ++ header.after) : False := by
    rcases (header.blank text around).directive matched with ⟨-, _, _, same⟩ | ⟨-, _, same⟩ <;> cases same
  simp only [GuardedHeader.content, List.mem_append, List.mem_cons] at inside
  rcases inside with before | rfl | inner | rfl | after
  · exact (blank (List.mem_append_left _ before)).elim
  · rcases opens_cases (header.selects .empty).1 with ifdef | ⟨-, ifndef⟩
    · exact absurd (Directive.unique _ _ matched ifdef) (by decide)
    · exact absurd (Directive.unique _ _ matched ifndef) (by decide)
  · obtain ⟨_, _, lines, line, lines', -, split, -, reading⟩ := forall₂_split header.spelled.flip inner
    have spelled' : line.Spells (headText text) := reading
    have inside : line ∈ header.lines := by
      rw [GuardedHeader.lines, split]
      exact List.mem_append_right _ List.mem_cons_self
    rcases spelled'.directive matched with ⟨same, -⟩ | ⟨-, path', rfl⟩
    · cases same
    · obtain rfl := include_unique spelled spelled'
      rcases List.mem_cons.mp inside with same | body
      · cases same
      · exact library.closed header member _ body path (List.mem_singleton_self path)
  · exact absurd (Directive.unique _ .endif matched header.endif) (by decide)
  · exact (blank (List.mem_append_right _ after)).elim

/-- The headers that are recorded for a file are those of the library. -/
theorem HeaderLibrary.recorded_header (library : HeaderLibrary files) {texts : List (List Char)} {headers : List IncludeFile}
    (named : ∀ text ∈ texts, ∀ path, (HeaderLine.inclusion path).Spells (headText text) →
      ∃ other ∈ library.headers, other.path = path) (recorded : RecordedHeaders files 1 texts headers) :
    ∀ other ∈ headers, ∃ original ∈ library.headers, other = original.recorded other.appearance_at_line_num := by
  intro other inside
  obtain ⟨text, member, spelled⟩ := recorded.spelled other inside
  obtain ⟨original, known, same⟩ := named text member _ spelled
  have content := recorded.opened other inside original.content (same ▸ library.opened original known)
  refine ⟨original, known, ?_⟩
  rw [GuardedHeader.recorded, same, ← content]

/-- Without its guard, a header defines its names, the guard among them, and records what it includes. -/
theorem HeaderLibrary.headProcess_new (library : HeaderLibrary files) (member : header ∈ library.headers)
    (new : definition.contains header.guard = false) :
    ∃ file definition' headers,
      headProcess files include_path header.content definition [] = .ok (file, definition', headers) ∧
        HeaderRead files header definition file definition' headers := by
  have opened := library.opened_lines member
  obtain ⟨out, reached, scanned, left, -, defined⟩ :=
    @GuardedHeader.headLines_new files include_path definition header new _ _ header.spelled opened
  have leaves := @headLine_endif files include_path (1 + (header.before ++ header.opening :: header.inner).length) reached _
    header.endif
  obtain ⟨last, late, left'⟩ := @headLines_blank files include_path _
    (fun text member => header.blank text (List.mem_append_right _ member))
    (1 + (header.before ++ header.opening :: header.inner).length + 1) reached.closed
  have whole : header.content = (header.before ++ header.opening :: header.inner) ++ header.closing :: header.after := by
    rw [GuardedHeader.content, List.append_assoc, List.cons_append]
  have done : headLines files include_path 1 ⟨false, false, definition, []⟩ header.content =
      .ok (out ++ [] :: last, reached.closed) := by
    rw [whole]
    exact headLines_append.mpr ⟨out, reached, _, scanned, headLines_turn leaves late, rfl⟩
  obtain ⟨headers, same, recorded⟩ := headLines_recorded done
  rw [List.nil_append] at same
  have blank : HeaderLine.blank.left.Spells [] := by simp [HeaderLine.left, HeaderLine.Spells]
  have lines : LeftLines ((header.before.map fun _ => .blank) ++ .blank :: header.lines ++
      .blank :: (header.after.map fun _ => .blank)) (out ++ [] :: last) :=
    List.rel_append left (.cons ⟨blank, rfl⟩ left')
  refine ⟨out ++ [] :: last, reached.definition, headers, by rw [headProcess, done, ← same]; rfl,
    ⟨_, lines, fun line inside => ?_, fun line inside => ?_⟩, defined, recorded, headLines_length done,
    fun line inside path included => ?_⟩
  · exact List.mem_append_left _ (List.mem_append_right _ (List.mem_cons_of_mem _ inside))
  · simp only [List.mem_append, List.mem_cons, List.mem_map] at inside
    rcases inside with (⟨_, -, rfl⟩ | rfl | inside) | rfl | ⟨_, -, rfl⟩
    · exact .inr rfl
    · exact .inr rfl
    · exact .inl inside
    · exact .inr rfl
    · exact .inr rfl
  · obtain ⟨before, after, texts, text, texts', split, inner, front, spelled⟩ := forall₂_split header.spelled inside
    obtain rfl : line = .inclusion path := by
      cases line with
      | inclusion other => rw [List.mem_singleton.mp included]
      | _ => cases included
    obtain ⟨content, own⟩ := opened _ inside path included
    have ahead : ∀ line ∈ before, ∀ path ∈ line.includes, ∃ content, files path = some content := fun other earlier =>
      opened other (by rw [GuardedHeader.lines, split]; exact List.mem_append_left _ earlier)
    obtain ⟨_, middle, scanned', -, live, -⟩ :=
      @GuardedHeader.headLines_new files include_path definition header new _ _ front ahead
    have cut : header.content =
        (header.before ++ header.opening :: texts) ++ text :: (texts' ++ header.closing :: header.after) := by
      rw [GuardedHeader.content, inner]
      simp only [List.append_assoc, List.cons_append]
    rw [cut] at done
    have found := mem_headers_of_include done (fun earlier reached first => ?_) spelled own
    · exact ⟨_, same ▸ found, rfl⟩
    · rw [scanned'] at first
      cases first
      exact live

end Reads

end Sysdarft.Coding
