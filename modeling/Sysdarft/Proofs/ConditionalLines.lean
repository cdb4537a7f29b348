import Sysdarft.Library.Effects
import Sysdarft.Proofs.DirectiveLines

/-! # Which lines a conditional selects

`Selection` is the reading of the documentation: one entry for every conditional that is open, telling whether the
branch the scan is in is selected, and directives in either case. `HeadProcess` has two flags instead of the entries,
and knows `%endif` in small letters only. `Body.Right` says for which files that is enough, by recursion over the
nesting.
-/

namespace Sysdarft.Coding

/-! ## The selected lines -/

/-- What a line that is kept does. -/
def keptLine (files : FileSystem) (include_path : List (List Char)) (line_number : ℕ) (definition : Definitions)
    (header_files : List IncludeFile) (line : List Char) : Except BuildError (List Char × Definitions × List IncludeFile) :=
  let line := headText line
  if lineMatches includePattern line then
    (processInclude files include_path line_number line).map fun file => ([], definition, header_files ++ [file])
  else if lineMatches definePattern line then
    let (line, definition) := processDefine line definition
    .ok (line, definition, header_files)
  else if lineMatches errorPattern line then
    .error (.preProcessor ("Exception caught from source file: ".toList ++ capture errorPattern 1 line))
  else .ok (line, definition, header_files)

/-- `%endif` in either case, as the patterns of the other conditional directives have it. -/
def closingPattern : Regex :=
  Regex.seq (Regex.star space) (Regex.seq (Regex.litNoCase "%endif".toList) (Regex.star space))

/-- Whether a line closes a conditional. -/
def closes (line : List Char) : Bool := lineMatches closingPattern (headText line)

/-- Whether a line has no capital letter in front of its comment. -/
def small (line : List Char) : Bool := (headText line).all fun c => !c.isUpper

/-- Whether a line opens a conditional. -/
def opens (line : List Char) : Bool := lineMatches ifdefPattern (headText line) || lineMatches ifndefPattern (headText line)

/-- Whether the first branch of the conditional that a line opens is selected. -/
def selects (line : List Char) (definition : Definitions) : Bool :=
  if lineMatches ifdefPattern (headText line) then definition.contains (capture ifdefPattern 1 (headText line))
  else !definition.contains (capture ifndefPattern 1 (headText line))

/-- The open conditionals, the innermost first, with what the kept lines have done. -/
structure Selection where
  branches : List Bool
  definition : Definitions
  header_files : List IncludeFile

/-- A line is kept when every open conditional has selected the branch. -/
def selectLine (files : FileSystem) (include_path : List (List Char)) (line_number : ℕ) (selection : Selection)
    (line : List Char) : Except BuildError (List Char × Selection) :=
  if closes line then .ok ([], { selection with branches := selection.branches.tail })
  else if lineMatches elsePattern (headText line) then
    .ok ([], { selection with branches := selection.branches.modifyHead not })
  else if opens line then
    .ok ([], { selection with branches := selects line selection.definition :: selection.branches })
  else if selection.branches.all id then
    (keptLine files include_path line_number selection.definition selection.header_files line).map fun (line,
      definition, header_files) =>
      (line, { selection with definition, header_files })
  else .ok ([], selection)

def selectLines (files : FileSystem) (include_path : List (List Char)) :
    ℕ → Selection → List (List Char) → Except BuildError (List (List Char) × Selection)
  | _, selection, [] => .ok ([], selection)
  | line_number, selection, line :: rest => do
    let (line, selection) ← selectLine files include_path line_number selection line
    let (rest, selection) ← selectLines files include_path (line_number + 1) selection rest
    return (line :: rest, selection)

/-- The lines of a file that are selected, with what they define and include. -/
def selectedLines (files : FileSystem) (include_path : List (List Char)) (file : List (List Char)) (definition : Definitions)
    (header_files : List IncludeFile) : Except BuildError (List (List Char) × Definitions × List IncludeFile) :=
  (selectLines files include_path 1 ⟨[], definition, header_files⟩ file).map fun (file, selection) =>
    (file, selection.definition, selection.header_files)

/-! ## `%endif` -/

section Closing

open Regex

variable {line : List Char}

/-- A line that is one word, with white space around it. -/
theorem lineMatches_word_iff {marker : Regex} {language : List Char → Prop} (reads : Reads marker language)
    {text : List Char} :
    lineMatches (seq (star space) (seq marker (star space))) text = true ↔
      ∃ spaces word rest, text = spaces ++ (word ++ rest) ∧ (∀ c ∈ spaces, Numerals.isSpace c = true) ∧ language word ∧
        ∀ c ∈ rest, Numerals.isSpace c = true := by
  rw [lineMatches, fullMatch_isSome_iff]
  constructor
  · rintro ⟨captures, derivation⟩
    obtain ⟨spaces, _, whole, white, behind⟩ := reads_spaces.derives_seq.mp derivation
    obtain ⟨word, rest, rfl, member, tail⟩ := reads.derives_seq.mp behind
    exact ⟨spaces, word, rest, whole, white, member, (reads_spaces.mp tail).1⟩
  · rintro ⟨spaces, word, rest, whole, white, member, tail⟩
    refine ⟨[], reads_spaces.derives_seq.mpr ⟨spaces, _, whole, white, ?_⟩⟩
    exact reads.derives_seq.mpr ⟨word, rest, rfl, member, reads_spaces.mpr ⟨tail, rfl⟩⟩

theorem closes_iff :
    closes line = true ↔ ∃ spaces word rest, headText line = spaces ++ (word ++ rest) ∧
      (∀ c ∈ spaces, Numerals.isSpace c = true) ∧ word.map Char.toLower = "%endif".toList ∧
      ∀ c ∈ rest, Numerals.isSpace c = true :=
  lineMatches_word_iff (fun {_ _ _ _} => reads_litNoCase _)

theorem endif_iff :
    lineMatches endifPattern (headText line) = true ↔ ∃ spaces word rest, headText line = spaces ++ (word ++ rest) ∧
      (∀ c ∈ spaces, Numerals.isSpace c = true) ∧ word = "%endif".toList ∧ ∀ c ∈ rest, Numerals.isSpace c = true :=
  lineMatches_word_iff (fun {_ _ _ _} => reads_lit _)

theorem closes_front (closed : closes line = true) : '%' :: Directive.endif.word <+: directiveText (headText line) := by
  refine prefix_directiveText (by decide) (fun {_ _ _ _} => reads_litNoCase _) (fun text same => same.trans ?_) closed
  decide

/-- A line that closes a conditional is no other directive. -/
theorem not_matches_of_closes (other : Directive) (closed : closes line = true) (differs : Directive.endif ≠ other) :
    lineMatches other.pattern (headText line) = false := by
  by_contra matched
  have front := Directive.word_front (by simpa using matched)
  rcases List.prefix_or_prefix_of_prefix (closes_front closed) front with inside | inside
  · exact differs (Directive.eq_of_front inside)
  · exact differs (Directive.eq_of_front inside).symm

theorem not_closes_of_matches (other : Directive) (found : lineMatches other.pattern (headText line) = true)
    (differs : Directive.endif ≠ other) : closes line = false := by
  by_contra closed
  rw [not_matches_of_closes other (by simpa using closed) differs] at found
  cases found

theorem headText_ne_nil_of_closes (closed : closes line = true) : headText line ≠ [] := by
  intro blank
  have front := closes_front closed
  rw [blank, directiveText, List.dropWhile_nil, List.map_nil, List.prefix_nil] at front
  cases front

theorem not_opens_of_closes (closed : closes line = true) : opens line = false := by
  rw [opens, Bool.or_eq_false_iff]
  exact ⟨not_matches_of_closes .ifdef closed (by decide), not_matches_of_closes .ifndef closed (by decide)⟩

theorem closes_of_endif (ends : lineMatches endifPattern (headText line) = true) : closes line = true := by
  obtain ⟨spaces, word, rest, whole, white, rfl, tail⟩ := endif_iff.mp ends
  exact closes_iff.mpr ⟨spaces, _, rest, whole, white, by decide, tail⟩

theorem toLower_of_small {c : Char} (lower : c.isUpper = false) : c.toLower = c := by
  have outside : ¬ (c.val ≥ 'A'.val ∧ c.val ≤ 'Z'.val) := of_decide_eq_false lower
  delta Char.toLower
  rw [dif_neg outside]

theorem isUpper_of_isSpace {c : Char} (blank : Numerals.isSpace c = true) : c.isUpper = false := by
  rcases isSpace_cases blank with rfl | rfl | rfl | rfl | rfl | rfl <;> decide

/-- `HeadProcess` sees a closing line exactly when it has no capital letter. -/
theorem endif_eq_small (closed : closes line = true) : lineMatches endifPattern (headText line) = small line := by
  rw [Bool.eq_iff_iff, small, List.all_eq_true]
  constructor
  · intro ends c member
    obtain ⟨spaces, word, rest, whole, white, rfl, tail⟩ := endif_iff.mp ends
    rw [whole, List.mem_append, List.mem_append] at member
    rw [Bool.not_eq_true']
    rcases member with blank | letter | blank
    · exact isUpper_of_isSpace (white c blank)
    · exact (show ∀ c ∈ "%endif".toList, c.isUpper = false by decide) c letter
    · exact isUpper_of_isSpace (tail c blank)
  · intro lower
    obtain ⟨spaces, word, rest, whole, white, same, tail⟩ := closes_iff.mp closed
    have unchanged : word.map Char.toLower = word := by
      refine (List.map_congr_left fun c member => ?_).trans (List.map_id word)
      have present : c ∈ headText line := by
        rw [whole]
        exact List.mem_append_right _ (List.mem_append_left _ member)
      exact toLower_of_small (by simpa using lower c present)
    rw [unchanged] at same
    exact endif_iff.mpr ⟨spaces, word, rest, whole, white, same, tail⟩

end Closing

/-! ## The turns of the loop -/

section Turns

variable {files : FileSystem} {include_path : List (List Char)} {line_number : ℕ} {state : HeadState} {line : List Char}

/-- Lines are skipped. -/
def HeadState.skipping (state : HeadState) : Bool := state.inside_ifdef && !state.requested_marco_present

/-- The flags in the first branch of a conditional. -/
def HeadState.opened (state : HeadState) (selected : Bool) : HeadState :=
  { state with inside_ifdef := true, requested_marco_present := selected }

/-- The flags behind `%endif`. -/
def HeadState.closed (state : HeadState) : HeadState :=
  { state with inside_ifdef := false, requested_marco_present := false }

/-- The flags behind `%else`, where it is obeyed. -/
def HeadState.resumed (state : HeadState) : HeadState := { state with requested_marco_present := true }

theorem HeadState.skipping_resumed (state : HeadState) : state.resumed.skipping = false := by
  rw [skipping, resumed, Bool.not_true, Bool.and_false]

theorem headLine_endif (ends : lineMatches endifPattern (headText line) = true) :
    headLine files include_path line_number state line =
      .ok ([], state.closed) := by
  rw [headLine]
  exact if_pos ends

theorem headLine_skipped (goes_on : lineMatches endifPattern (headText line) = false) (skips : state.skipping = true) :
    headLine files include_path line_number state line =
      .ok ([], if lineMatches elsePattern (headText line) then { state with requested_marco_present := true } else
        state) := by
  rw [HeadState.skipping] at skips
  simp only [headLine, goes_on, skips, Bool.false_eq_true, ↓reduceIte]

theorem opens_cases (opened : opens line = true) :
    lineMatches Directive.ifdef.pattern (headText line) = true ∨
      lineMatches Directive.ifdef.pattern (headText line) = false ∧
        lineMatches Directive.ifndef.pattern (headText line) = true := by
  rw [opens, Bool.or_eq_true] at opened
  rcases opened with ifdef | ifndef
  · exact .inl ifdef
  · exact .inr ⟨Directive.not_matches .ifndef .ifdef ifndef (by decide), ifndef⟩

theorem not_endif_of_opens (opened : opens line = true) : lineMatches endifPattern (headText line) = false := by
  rcases opens_cases opened with ifdef | ⟨-, ifndef⟩
  · exact Directive.not_matches .ifdef .endif ifdef (by decide)
  · exact Directive.not_matches .ifndef .endif ifndef (by decide)

theorem not_else_of_opens (opened : opens line = true) : lineMatches elsePattern (headText line) = false := by
  rcases opens_cases opened with ifdef | ⟨-, ifndef⟩
  · exact Directive.not_matches .ifdef .else ifdef (by decide)
  · exact Directive.not_matches .ifndef .else ifndef (by decide)

theorem headLine_opens (opened : opens line = true) (live : state.skipping = false) :
    headLine files include_path line_number state line =
      .ok ([], state.opened (selects line state.definition)) := by
  rw [HeadState.skipping] at live
  rcases opens_cases opened with ifdef | ⟨differs, ifndef⟩
  · have goes_on : lineMatches endifPattern (headText line) = false := Directive.not_matches .ifdef .endif ifdef (by decide)
    have first : lineMatches includePattern (headText line) = false :=
      Directive.not_matches .ifdef .include ifdef (by decide)
    have second : lineMatches definePattern (headText line) = false := Directive.not_matches .ifdef .define ifdef (by decide)
    have third : lineMatches ifdefPattern (headText line) = true := ifdef
    simp only [headLine, goes_on, live, first, second, third, selects, HeadState.opened, Bool.false_eq_true, ↓reduceIte]
  · have goes_on : lineMatches endifPattern (headText line) = false :=
      Directive.not_matches .ifndef .endif ifndef (by decide)
    have first : lineMatches includePattern (headText line) = false :=
      Directive.not_matches .ifndef .include ifndef (by decide)
    have second : lineMatches definePattern (headText line) = false :=
      Directive.not_matches .ifndef .define ifndef (by decide)
    have third : lineMatches ifdefPattern (headText line) = false := differs
    have fourth : lineMatches ifndefPattern (headText line) = true := ifndef
    simp only [headLine, goes_on, live, first, second, third, fourth, selects, HeadState.opened, Bool.false_eq_true,
      ↓reduceIte]

/-- The flags behind a line that opens a conditional. -/
def HeadState.entered (state : HeadState) (selected : Bool) : HeadState :=
  if state.skipping then state else state.opened selected

theorem HeadState.entered_definition (state : HeadState) (selected : Bool) :
    (state.entered selected).definition = state.definition := by
  rw [entered]
  split_ifs <;> rfl

theorem HeadState.entered_header_files (state : HeadState) (selected : Bool) :
    (state.entered selected).header_files = state.header_files := by
  rw [entered]
  split_ifs <;> rfl

theorem HeadState.skipping_entered (state : HeadState) (selected : Bool) :
    (state.entered selected).skipping = (state.skipping || !selected) := by
  rw [entered]
  cases skips : state.skipping with
  | true => exact skips
  | false => rfl

theorem headLine_head (opened : opens line = true) :
    headLine files include_path line_number state line =
      .ok ([], state.entered (selects line state.definition)) := by
  rw [HeadState.entered]
  cases skips : state.skipping with
  | true => rw [headLine_skipped (not_endif_of_opens opened) skips, not_else_of_opens opened,
              if_neg Bool.false_ne_true, if_pos rfl]
  | false => exact headLine_opens opened skips

/-- Every other line is kept, `%else` included. -/
theorem headLine_kept (goes_on : lineMatches endifPattern (headText line) = false) (plain : opens line = false)
    (live : state.skipping = false) :
    headLine files include_path line_number state line =
      (keptLine files include_path line_number state.definition state.header_files line).map
        fun (line, definition, header_files) => (line, { state with definition, header_files }) := by
  rw [HeadState.skipping] at live
  rw [opens, Bool.or_eq_false_iff] at plain
  obtain ⟨third, fourth⟩ := plain
  simp only [headLine, keptLine, goes_on, live, third, fourth, Bool.false_eq_true, ↓reduceIte]
  split_ifs with includes defines warns reports reports
  · cases processInclude files include_path line_number (headText line) <;> rfl
  · rfl
  · cases Directive.unique .warning .error warns reports
  · rfl
  · rfl
  · rfl

variable {selection : Selection}

/-- Another conditional is open. -/
def Selection.push (selection : Selection) (selected : Bool) : Selection :=
  { selection with branches := selected :: selection.branches }

theorem selectLine_closes (closed : closes line = true) (selected : Bool) :
    selectLine files include_path line_number (selection.push selected) line = .ok ([], selection) := by
  rw [selectLine, if_pos closed]
  rfl

theorem selectLine_else (splits : lineMatches elsePattern (headText line) = true) (selected : Bool) :
    selectLine files include_path line_number (selection.push selected) line = .ok ([], selection.push !selected) := by
  have goes_on : closes line = false := not_closes_of_matches .else splits (by decide)
  rw [selectLine, if_neg (by simp [goes_on]), if_pos splits]
  rfl

theorem selectLine_opens (opened : opens line = true) :
    selectLine files include_path line_number selection line =
      .ok ([], selection.push (selects line selection.definition)) := by
  have goes_on : closes line = false := by
    by_contra closed
    rw [not_opens_of_closes (by simpa using closed)] at opened
    cases opened
  rw [selectLine, if_neg (by simp [goes_on]), if_neg (by simp [not_else_of_opens opened]), if_pos opened, Selection.push]

end Turns

/-! ## Nested files -/

/-- A line that opens, splits or closes no conditional. -/
def Plain (line : List Char) : Prop :=
  closes line = false ∧ lineMatches elsePattern (headText line) = false ∧ opens line = false

instance (line : List Char) : Decidable (Plain line) := inferInstanceAs (Decidable (_ ∧ _ ∧ _))

theorem Plain.goes_on {line : List Char} (plain : Plain line) : lineMatches endifPattern (headText line) = false := by
  by_contra ends
  have closed := closes_of_endif (by simpa using ends)
  rw [plain.1] at closed
  cases closed

/-- Lines with well-nested conditionals, each with at most one `%else`. -/
inductive Body where
  | done
  | line (text : List Char) (plain : Plain text) (rest : Body)
  | conditional (head : List Char) (opened : opens head = true) (first : Body) (finish : List Char)
      (closed : closes finish = true) (rest : Body)
  | conditionalElse (head : List Char) (opened : opens head = true) (first : Body) (middle : List Char)
      (split : lineMatches elsePattern (headText middle) = true) (second : Body) (finish : List Char)
      (closed : closes finish = true) (rest : Body)

namespace Body

/-- The lines of the file. -/
def lines : Body → List (List Char)
  | done => []
  | line text _ rest => text :: rest.lines
  | conditional head _ first finish _ rest => head :: (first.lines ++ finish :: rest.lines)
  | conditionalElse head _ first middle _ second finish _ rest =>
    head :: (first.lines ++ middle :: (second.lines ++ finish :: rest.lines))

/-- Whether the last `%endif` that is not nested is in small letters. -/
def ending : Body → Option Bool
  | done => none
  | line _ _ rest => rest.ending
  | conditional _ _ _ finish _ rest => rest.ending.or (some (small finish))
  | conditionalElse _ _ _ _ _ _ finish _ rest => rest.ending.or (some (small finish))

/-- Whether lines pass behind a body, when they do in front of it. -/
def after (live : Bool) (body : Body) : Bool := body.ending.getD live

variable (files : FileSystem) (include_path : List (List Char))

/-- What a line defines and includes when it is selected, unless it is an error. -/
def lineEffect (selected : Bool) (line_number : ℕ) (definition : Definitions) (header_files : List IncludeFile)
    (text : List Char) : Option (Definitions × List IncludeFile) :=
  if selected then (keptLine files include_path line_number definition header_files text).toOption.map Prod.snd
  else some (definition, header_files)

/-- What the lines of a body define and include when it is selected. -/
def effect : Body → Bool → ℕ → Definitions → List IncludeFile → Option (Definitions × List IncludeFile)
  | done, _, _, definition, header_files => some (definition, header_files)
  | line text _ rest, selected, line_number, definition, header_files =>
    (lineEffect files include_path selected line_number definition header_files text).bind fun done =>
      rest.effect selected (line_number + 1) done.1 done.2
  | conditional head _ first _ _ rest, selected, line_number, definition, header_files =>
    (first.effect (selected && selects head definition) (line_number + 1) definition header_files).bind fun done =>
      rest.effect selected (line_number + first.lines.length + 2) done.1 done.2
  | conditionalElse head _ first _ _ second _ _ rest, selected, line_number, definition, header_files =>
    (first.effect (selected && selects head definition) (line_number + 1) definition header_files).bind fun done =>
      (second.effect (selected && !selects head definition) (line_number + first.lines.length + 2) done.1 done.2).bind
        fun done => rest.effect selected (line_number + first.lines.length + second.lines.length + 3) done.1 done.2

/-! ### Where two flags are enough -/

/-- Lines pass at the beginning of a file, in a branch whose condition holds when they pass in front of it, behind
`%else`, and behind `%endif` in small letters. A line that passes without being selected, or is selected without passing,
is blank. No line passes in front of `%else`, nor in front of `%endif` with a capital letter. -/
def Right : Body → Bool → Bool → ℕ → Definitions → List IncludeFile → Prop
  | done, _, _, _, _, _ => True
  | line text _ rest, live, selected, line_number, definition, header_files =>
    (live ≠ selected → headText text = []) ∧
      ∀ done ∈ lineEffect files include_path selected line_number definition header_files text,
        rest.Right live selected (line_number + 1) done.1 done.2
  | conditional head _ first finish _ rest, live, selected, line_number, definition, header_files =>
    let holds := selects head definition
    first.Right (live && holds) (selected && holds) (line_number + 1) definition header_files ∧
      ∀ done ∈ first.effect files include_path (selected && holds) (line_number + 1) definition header_files,
        (small finish = true ∨ first.after (live && holds) = false) ∧
          rest.Right (small finish) selected (line_number + first.lines.length + 2) done.1 done.2
  | conditionalElse head _ first _ _ second finish _ rest, live, selected, line_number, definition, header_files =>
    let holds := selects head definition
    first.Right (live && holds) (selected && holds) (line_number + 1) definition header_files ∧
      ∀ done ∈ first.effect files include_path (selected && holds) (line_number + 1) definition header_files,
        first.after (live && holds) = false ∧
          second.Right true (selected && !holds) (line_number + first.lines.length + 2) done.1 done.2 ∧
            ∀ last ∈ second.effect files include_path (selected && !holds)
                (line_number + first.lines.length + 2) done.1 done.2,
              (small finish = true ∨ second.after true = false) ∧
                rest.Right (small finish) selected (line_number + first.lines.length + second.lines.length + 3) last.1 last.2

/-- The plain case: no conditional that is taken has `%else`, none that is not taken has another one in its branch, and
`%endif` is in small letters. -/
def Simple : Body → ℕ → Definitions → List IncludeFile → Prop
  | done, _, _, _ => True
  | line text _ rest, line_number, definition, header_files =>
    ∀ done ∈ lineEffect files include_path true line_number definition header_files text,
      rest.Simple (line_number + 1) done.1 done.2
  | conditional head _ first finish _ rest, line_number, definition, header_files =>
    small finish = true ∧
      if selects head definition = true then
        first.Simple (line_number + 1) definition header_files ∧
          ∀ done ∈ first.effect files include_path true (line_number + 1) definition header_files,
            rest.Simple (line_number + first.lines.length + 2) done.1 done.2
      else first.ending = none ∧ rest.Simple (line_number + first.lines.length + 2) definition header_files
  | conditionalElse head _ first _ _ second finish _ rest, line_number, definition, header_files =>
    small finish = true ∧ selects head definition = false ∧ first.ending = none ∧
      second.Simple (line_number + first.lines.length + 2) definition header_files ∧
        ∀ done ∈ second.effect files include_path true (line_number + first.lines.length + 2) definition header_files,
          rest.Simple (line_number + first.lines.length + second.lines.length + 3) done.1 done.2

variable {files include_path} {body : Body} {line_number : ℕ} {definition : Definitions} {header_files : List IncludeFile}

theorem effect_false (body : Body) (line_number : ℕ) (definition : Definitions) (header_files : List IncludeFile) :
    body.effect files include_path false line_number definition header_files = some (definition, header_files) := by
  induction body generalizing line_number with
  | done => rfl
  | line text plain rest ih => exact ih (line_number + 1)
  | conditional head opened first finish closed rest ih_first ih_rest =>
    rw [effect, Bool.false_and, ih_first, Option.bind_some, ih_rest]
  | conditionalElse head opened first middle split second finish closed rest ih_first ih_second ih_rest =>
    rw [effect, Bool.false_and, Bool.false_and, ih_first, Option.bind_some, ih_second, Option.bind_some, ih_rest]

/-- A branch without conditionals is skipped as it should be. -/
theorem right_of_ending_none (flat : body.ending = none) :
    body.Right files include_path false false line_number definition header_files := by
  induction body generalizing line_number with
  | done => trivial
  | line text plain rest ih =>
    refine ⟨fun differs => absurd rfl differs, fun done member => ?_⟩
    cases member
    exact ih flat
  | conditional head opened first finish closed rest => simp [ending] at flat
  | conditionalElse head opened first middle split second finish closed rest => simp [ending] at flat

theorem Simple.right (simple : body.Simple files include_path line_number definition header_files) :
    body.Right files include_path true true line_number definition header_files := by
  induction body generalizing line_number definition header_files with
  | done => trivial
  | line text plain rest ih => exact ⟨fun differs => absurd rfl differs, fun done member => ih (simple done member)⟩
  | conditional head opened first finish closed rest ih_first ih_rest =>
    obtain ⟨lower, branch⟩ := simple
    rw [Right, Bool.true_and, lower]
    split_ifs at branch with holds
    · rw [holds]
      exact ⟨ih_first branch.1, fun done member => ⟨.inl rfl, ih_rest (branch.2 done member)⟩⟩
    · rw [Bool.eq_false_iff.mpr holds]
      refine ⟨right_of_ending_none branch.1, fun done member => ⟨.inl rfl, ?_⟩⟩
      rw [effect_false] at member
      cases member
      exact ih_rest branch.2
  | conditionalElse head opened first middle split second finish closed rest ih_first ih_second ih_rest =>
    obtain ⟨lower, fails, flat, behind, later⟩ := simple
    rw [Right, Bool.true_and, lower, fails]
    refine ⟨right_of_ending_none flat, fun done member => ?_⟩
    rw [effect_false] at member
    cases member
    refine ⟨?_, ih_second behind, fun last member => ⟨.inl rfl, ih_rest (later last member)⟩⟩
    rw [after, flat, Option.getD_none]

end Body

/-! ## Both scans, line by line -/

section Scan

variable (files : FileSystem) (include_path : List (List Char))

/-- Both scans do the same at every line, up to the first error. -/
def Agree : ℕ → HeadState → Selection → List (List Char) → Prop
  | _, _, _, [] => True
  | line_number, state, selection, line :: rest =>
    match headLine files include_path line_number state line, selectLine files include_path line_number selection line with
    | .ok (text, state), .ok (text', selection) =>
      text = text' ∧ state.definition = selection.definition ∧ state.header_files = selection.header_files ∧
        Agree (line_number + 1) state selection rest
    | .error e, .error e' => e = e'
    | _, _ => False

variable {files include_path} {line_number : ℕ} {state : HeadState} {selection : Selection}

private theorem headLines_cons (line : List Char) (rest : List (List Char)) :
    headLines files include_path line_number state (line :: rest) =
      (headLine files include_path line_number state line).bind fun (text, state) =>
        (headLines files include_path (line_number + 1) state rest).map fun (texts, state) => (text :: texts, state) := by
  rw [headLines]
  cases headLine files include_path line_number state line with
  | error e => rfl
  | ok done =>
    obtain ⟨text, state'⟩ := done
    simp only [bind, Except.bind]
    cases headLines files include_path (line_number + 1) state' rest <;> rfl

private theorem selectLines_cons (line : List Char) (rest : List (List Char)) :
    selectLines files include_path line_number selection (line :: rest) =
      (selectLine files include_path line_number selection line).bind fun (text, selection) =>
        (selectLines files include_path (line_number + 1) selection rest).map fun (texts, selection) =>
          (text :: texts, selection) := by
  rw [selectLines]
  cases selectLine files include_path line_number selection line with
  | error e => rfl
  | ok done =>
    obtain ⟨text, selection'⟩ := done
    simp only [bind, Except.bind]
    cases selectLines files include_path (line_number + 1) selection' rest <;> rfl

/-- A line in front of both results changes nothing. -/
private theorem map_cons_iff {text : List Char} {code : Except BuildError (List (List Char) × HeadState)}
    {expected : Except BuildError (List (List Char) × Selection)} :
    ((code.map fun (texts, state) => (text :: texts, state)).map fun (file, state) =>
      (file, state.definition, state.header_files)) =
        ((expected.map fun (texts, selection) => (text :: texts, selection)).map fun (file, selection) =>
          (file, selection.definition, selection.header_files)) ↔
      (code.map fun (file, state) => (file, state.definition, state.header_files)) =
        expected.map fun (file, selection) => (file, selection.definition, selection.header_files) := by
  cases code <;> cases expected <;> simp [Except.map]

/-- Agreement line by line is agreement on every beginning of the file. -/
theorem agree_iff (definitions : state.definition = selection.definition)
    (headers : state.header_files = selection.header_files) (lines : List (List Char)) :
    Agree files include_path line_number state selection lines ↔
      ∀ count,
        (headLines files include_path line_number state (lines.take count)).map
            (fun (file, state) => (file, state.definition, state.header_files)) =
          (selectLines files include_path line_number selection (lines.take count)).map
            (fun (file, selection) => (file, selection.definition, selection.header_files)) := by
  induction lines generalizing line_number state selection with
  | nil => simp [Agree, headLines, selectLines, Except.map, definitions, headers]
  | cons line rest ih =>
    rw [Agree]
    cases code : headLine files include_path line_number state line with
    | error e =>
      cases expected : selectLine files include_path line_number selection line with
      | error e' =>
        constructor
        · rintro rfl count
          cases count with
          | zero => simp [headLines, selectLines, Except.map, definitions, headers]
          | succ count =>
            rw [List.take_succ_cons, headLines_cons, selectLines_cons, code, expected]
            rfl
        · intro same
          have first := same 1
          rw [List.take_succ_cons, headLines_cons, selectLines_cons, code, expected] at first
          exact Except.error.inj first
      | ok done =>
        refine ⟨False.elim, fun same => ?_⟩
        have first := same 1
        rw [List.take_succ_cons, headLines_cons, selectLines_cons, code, expected] at first
        cases first
    | ok done =>
      obtain ⟨text, state'⟩ := done
      cases expected : selectLine files include_path line_number selection line with
      | error e' =>
        refine ⟨False.elim, fun same => ?_⟩
        have first := same 1
        rw [List.take_succ_cons, headLines_cons, selectLines_cons, code, expected] at first
        cases first
      | ok done' =>
        obtain ⟨text', selection'⟩ := done'
        constructor
        · rintro ⟨rfl, definitions', headers', later⟩ count
          cases count with
          | zero => simp [headLines, selectLines, Except.map, definitions, headers]
          | succ count =>
            have prefixes := (ih definitions' headers').mp later count
            rw [List.take_succ_cons, headLines_cons, selectLines_cons, code, expected]
            exact map_cons_iff.mpr prefixes
        · intro same
          have first := same 1
          rw [List.take_succ_cons, headLines_cons, selectLines_cons, code, expected, List.take_zero] at first
          simp only [Except.bind, headLines, selectLines, Except.map, Except.ok.injEq, Prod.mk.injEq, List.cons.injEq,
            and_true] at first
          obtain ⟨rfl, definitions', headers'⟩ := first
          refine ⟨rfl, definitions', headers', (ih definitions' headers').mpr fun count => ?_⟩
          have longer := same (count + 1)
          rw [List.take_succ_cons, headLines_cons, selectLines_cons, code, expected] at longer
          exact map_cons_iff.mp longer

/-- The scans have defined and included the same so far. -/
def Follows (state : HeadState) (selection : Selection) : Prop :=
  state.definition = selection.definition ∧ state.header_files = selection.header_files

variable {line text : List Char} {rest : List (List Char)}

theorem agree_step {state' : HeadState} {selection' : Selection}
    (code : headLine files include_path line_number state line = .ok (text, state'))
    (expected : selectLine files include_path line_number selection line = .ok (text, selection'))
    (follows : Follows state' selection') :
    Agree files include_path line_number state selection (line :: rest) ↔
      Agree files include_path (line_number + 1) state' selection' rest := by
  rw [Agree, code, expected]
  exact ⟨fun agree => agree.2.2.2, fun agree => ⟨rfl, follows.1, follows.2, agree⟩⟩

theorem selectLine_kept (plain : Plain line) (live : selection.branches.all id = true) :
    selectLine files include_path line_number selection line =
      (keptLine files include_path line_number selection.definition selection.header_files line).map
        fun (line, definition, header_files) => (line, { selection with definition, header_files }) := by
  rw [selectLine, if_neg (by simp [plain.1]), if_neg (by simp [plain.2.1]), if_neg (by simp [plain.2.2]), if_pos live]

theorem selectLine_skipped (plain : Plain line) (skips : selection.branches.all id = false) :
    selectLine files include_path line_number selection line = .ok ([], selection) := by
  rw [selectLine, if_neg (by simp [plain.1]), if_neg (by simp [plain.2.1]), if_neg (by simp [plain.2.2]),
    if_neg (by simp [skips])]

theorem equLine_ne_nil (marco_name marco_value : List Char) : equLine marco_name marco_value ≠ [] := by
  intro blank
  unfold equLine at blank
  have last := (List.append_eq_nil_iff.mp blank).2
  revert last
  decide

/-- Only a blank line is kept without effect. -/
theorem keptLine_eq_nil_iff {definition : Definitions} {header_files : List IncludeFile} :
    keptLine files include_path line_number definition header_files line = .ok ([], definition, header_files) ↔
      headText line = [] := by
  constructor
  · intro kept
    simp only [keptLine] at kept
    split_ifs at kept with includes defines reports
    · cases found : processInclude files include_path line_number (headText line) with
      | error e =>
        rw [found] at kept
        cases kept
      | ok file =>
        rw [found] at kept
        simp [Except.map] at kept
    · exact absurd (congrArg Prod.fst (Except.ok.inj kept)) (equLine_ne_nil _ _)
    · simp only [Except.ok.injEq, Prod.mk.injEq] at kept
      exact kept.1
  · intro blank
    have none_matches (directive : Directive) : lineMatches directive.pattern (headText line) = false := by
      by_contra matched
      exact Directive.ne_nil directive (by simpa using matched) blank
    have first : lineMatches includePattern (headText line) = false := none_matches .include
    have second : lineMatches definePattern (headText line) = false := none_matches .define
    have third : lineMatches errorPattern (headText line) = false := none_matches .error
    simp only [keptLine, first, second, third, Bool.false_eq_true, ↓reduceIte]
    rw [blank]

/-- A kept line against a blanked one. -/
theorem agree_kept_blank (goes_on : lineMatches endifPattern (headText line) = false) (plain : opens line = false)
    (live : state.skipping = false) {selection' : Selection}
    (expected : selectLine files include_path line_number selection line = .ok ([], selection'))
    (follows : Follows state selection') :
    Agree files include_path line_number state selection (line :: rest) ↔
      headText line = [] ∧ Agree files include_path (line_number + 1) state selection' rest := by
  rw [Agree, headLine_kept goes_on plain live, expected]
  cases kept : keptLine files include_path line_number state.definition state.header_files line with
  | error e =>
    have visible : headText line ≠ [] := by
      intro blank
      rw [keptLine_eq_nil_iff.mpr blank] at kept
      cases kept
    simp [Except.map, visible]
  | ok done =>
    obtain ⟨text, definition, header_files⟩ := done
    simp only [Except.map]
    constructor
    · rintro ⟨rfl, definitions, headers, agree⟩
      obtain rfl : definition = state.definition := definitions.trans follows.1.symm
      obtain rfl : header_files = state.header_files := headers.trans follows.2.symm
      exact ⟨keptLine_eq_nil_iff.mp kept, agree⟩
    · rintro ⟨blank, agree⟩
      rw [keptLine_eq_nil_iff.mpr blank] at kept
      cases kept
      exact ⟨rfl, follows.1, follows.2, agree⟩

/-- The flags behind the last `%endif`, if there is one. -/
def HeadState.turned (state : HeadState) : Option Bool → HeadState
  | none => state
  | some true => state.closed
  | some false => state.opened false

theorem HeadState.turned_definition (state : HeadState) (ending : Option Bool) :
    (state.turned ending).definition = state.definition := by
  rcases ending with _ | (_ | _) <;> rfl

theorem HeadState.turned_header_files (state : HeadState) (ending : Option Bool) :
    (state.turned ending).header_files = state.header_files := by
  rcases ending with _ | (_ | _) <;> rfl

theorem HeadState.skipping_turned (state : HeadState) (ending : Option Bool) :
    (state.turned ending).skipping = !ending.getD !state.skipping := by
  rcases ending with _ | (_ | _)
  · rw [Option.getD_none, Bool.not_not, turned]
  · rfl
  · rfl

theorem HeadState.turned_turned (state : HeadState) (lower : Bool) (ending : Option Bool) :
    (state.turned (some lower)).turned ending = state.turned (ending.or (some lower)) := by
  rcases ending with _ | (_ | _) <;> cases lower <;> rfl

/-- What lines have defined and included. -/
def HeadState.record (state : HeadState) (done : Definitions × List IncludeFile) : HeadState :=
  { state with definition := done.1, header_files := done.2 }

def Selection.record (selection : Selection) (done : Definitions × List IncludeFile) : Selection :=
  { selection with definition := done.1, header_files := done.2 }

theorem HeadState.record_turned (state : HeadState) (ending : Option Bool) (done : Definitions × List IncludeFile) :
    (state.record done).turned ending = (state.turned ending).record done := by
  rcases ending with _ | (_ | _) <;> rfl

/-- `%endif` leaves nothing of the flags in front of it. -/
theorem HeadState.record_turned_or (state state' : HeadState) (ending : Option Bool) (lower : Bool)
    (done : Definitions × List IncludeFile) :
    (state.turned (ending.or (some lower))).record done = (state'.turned (ending.or (some lower))).record done := by
  rcases ending with _ | (_ | _) <;> cases lower <;> rfl

theorem Follows.record (state : HeadState) (selection : Selection) (done : Definitions × List IncludeFile) :
    Follows (state.record done) (selection.record done) := ⟨rfl, rfl⟩

theorem Follows.record_self (follows : Follows state selection) :
    selection.record (state.definition, state.header_files) = selection := by
  rw [Selection.record, follows.1, follows.2]

/-- The flags of lines that are skipped. -/
theorem HeadState.opened_of_skipping (skips : state.skipping = true) : state.opened false = state := by
  obtain ⟨inside_ifdef, requested_marco_present, definition, header_files⟩ := state
  rw [skipping, Bool.and_eq_true, Bool.not_eq_true'] at skips
  obtain ⟨rfl, rfl⟩ := skips
  rfl

/-- `%else`: it is kept where lines pass, and lines pass behind it. -/
private theorem agree_middle {middle : List Char} {selected : Bool} {more : List (List Char)}
    (split : lineMatches elsePattern (headText middle) = true) (follows : Follows state (selection.push selected)) :
    Agree files include_path line_number state (selection.push selected) (middle :: more) ↔
      state.skipping = true ∧ Agree files include_path (line_number + 1) state.resumed (selection.push !selected) more := by
  have goes_on : lineMatches endifPattern (headText middle) = false :=
    Directive.not_matches .else .endif split (by decide)
  have turned : Follows state (selection.push !selected) := follows
  cases skips : state.skipping with
  | true =>
    have code : headLine files include_path line_number state middle = .ok ([], state.resumed) := by
      rw [headLine_skipped goes_on skips, if_pos split, HeadState.resumed]
    have resumed : Follows state.resumed (selection.push !selected) := follows
    rw [agree_step code (selectLine_else split selected) resumed, and_iff_right rfl]
  | false =>
    have ifdef : lineMatches ifdefPattern (headText middle) = false :=
      Directive.not_matches .else .ifdef split (by decide)
    have ifndef : lineMatches ifndefPattern (headText middle) = false :=
      Directive.not_matches .else .ifndef split (by decide)
    have plain : opens middle = false := by rw [opens, ifdef, ifndef, Bool.or_false]
    have visible : headText middle ≠ [] := Directive.ne_nil .else split
    rw [agree_kept_blank goes_on plain skips (selectLine_else split selected) turned]
    exact iff_of_false (fun agree => visible agree.1) fun agree => Bool.false_ne_true agree.1

/-- `%endif`: with a capital letter it is kept where lines pass, and changes nothing where they do not. -/
private theorem agree_finish {finish : List Char} {selected : Bool} {more : List (List Char)}
    (closed : closes finish = true) (follows : Follows state (selection.push selected)) :
    Agree files include_path line_number state (selection.push selected) (finish :: more) ↔
      (small finish = true ∨ state.skipping = true) ∧
        Agree files include_path (line_number + 1) (state.turned (some (small finish))) selection more := by
  have shut : Follows state selection := follows
  have ends := endif_eq_small closed
  cases lower : small finish with
  | true =>
    have shut' : Follows state.closed selection := follows
    rw [agree_step (headLine_endif (ends.trans lower)) (selectLine_closes closed selected) shut']
    simp only [true_or, true_and]
    rfl
  | false =>
    have goes_on : lineMatches endifPattern (headText finish) = false := ends.trans lower
    cases skips : state.skipping with
    | true =>
      have splits : lineMatches elsePattern (headText finish) = false := not_matches_of_closes .else closed (by decide)
      have code : headLine files include_path line_number state finish = .ok ([], state) := by
        rw [headLine_skipped goes_on skips, splits, if_neg Bool.false_ne_true]
      have stays : state.turned (some false) = state := HeadState.opened_of_skipping skips
      rw [agree_step code (selectLine_closes closed selected) shut, stays]
      simp only [or_true, true_and]
    | false =>
      rw [agree_kept_blank goes_on (not_opens_of_closes closed) skips (selectLine_closes closed selected) shut]
      have visible : headText finish ≠ [] := headText_ne_nil_of_closes closed
      exact iff_of_false (fun agree => visible agree.1) fun agree => by simp at agree

/-- A line that is skipped against a kept one. -/
theorem agree_blank_kept (plain : Plain line) (follows : Follows state selection) (skips : state.skipping = true)
    (selected : selection.branches.all id = true) :
    Agree files include_path line_number state selection (line :: rest) ↔
      headText line = [] ∧ Agree files include_path (line_number + 1) state selection rest := by
  have code : headLine files include_path line_number state line = .ok ([], state) := by
    rw [headLine_skipped plain.goes_on skips, plain.2.1, if_neg Bool.false_ne_true]
  by_cases blank : headText line = []
  · have expected : selectLine files include_path line_number selection line = .ok ([], selection) := by
      rw [selectLine_kept plain selected, keptLine_eq_nil_iff.mpr blank]
      rfl
    rw [agree_step code expected follows, and_iff_right blank]
  · rw [Agree, code, selectLine_kept plain selected]
    refine iff_of_false (fun agree => blank ?_) fun agree => blank agree.1
    cases kept : keptLine files include_path line_number selection.definition selection.header_files line with
    | error e =>
      rw [kept] at agree
      exact agree.elim
    | ok done =>
      obtain ⟨text, definition, header_files⟩ := done
      rw [kept] at agree
      obtain ⟨rfl, definitions, headers, -⟩ := agree
      have unchanged : selection.definition = definition ∧ selection.header_files = header_files :=
        ⟨follows.1.symm.trans definitions, follows.2.symm.trans headers⟩
      obtain ⟨rfl, rfl⟩ := unchanged
      exact keptLine_eq_nil_iff.mp kept

/-- A line that is no conditional directive. -/
private theorem agree_line {live selected : Bool} (plain : Plain line) (follows : Follows state selection)
    (flags : state.skipping = !live) (chosen : selection.branches.all id = selected) :
    Agree files include_path line_number state selection (line :: rest) ↔
      (live ≠ selected → headText line = []) ∧
        ∀ done ∈ Body.lineEffect files include_path selected line_number state.definition state.header_files line,
          Agree files include_path (line_number + 1) (state.record done) (selection.record done) rest := by
  have unchanged : state.record (state.definition, state.header_files) = state := rfl
  cases selected with
  | false =>
    have expected : selectLine files include_path line_number selection line = .ok ([], selection) :=
      selectLine_skipped plain chosen
    simp only [Body.lineEffect, Bool.false_eq_true, ↓reduceIte, Option.mem_some_iff, forall_eq', follows.record_self,
      unchanged]
    cases live with
    | false =>
      have code : headLine files include_path line_number state line = .ok ([], state) := by
        rw [headLine_skipped plain.goes_on flags, plain.2.1, if_neg Bool.false_ne_true]
      rw [agree_step code expected follows]
      simp
    | true =>
      rw [agree_kept_blank plain.goes_on plain.2.2 flags expected follows]
      simp
  | true =>
    cases live with
    | false =>
      rw [agree_blank_kept plain follows flags chosen]
      simp only [ne_eq, Bool.false_eq_true, not_false_eq_true, forall_const]
      refine and_congr_right fun blank => ?_
      have kept : keptLine files include_path line_number state.definition state.header_files line = _ :=
        keptLine_eq_nil_iff.mpr blank
      simp only [Body.lineEffect, ↓reduceIte, kept, Except.toOption, Option.map_some, Option.mem_some_iff, forall_eq',
        follows.record_self, unchanged]
    | true =>
      rw [Agree, headLine_kept plain.goes_on plain.2.2 flags, selectLine_kept plain chosen, ← follows.1, ← follows.2,
        Body.lineEffect, if_pos rfl]
      cases keptLine files include_path line_number state.definition state.header_files line with
      | error e => simp [Except.map, Except.toOption]
      | ok done =>
        simp only [Except.map, Except.toOption, Option.map_some, Option.mem_some_iff, forall_eq', ne_eq, not_true_eq_false,
          false_implies, true_and]
        rfl

theorem Follows.entered (follows : Follows state selection) (holds : Bool) :
    Follows (state.entered holds) (selection.push holds) :=
  ⟨(state.entered_definition holds).trans follows.1, (state.entered_header_files holds).trans follows.2⟩

theorem flags_entered {live : Bool} (flags : state.skipping = !live) (holds : Bool) :
    (state.entered holds).skipping = !(live && holds) := by
  rw [HeadState.skipping_entered, flags, Bool.not_and]

theorem all_push {selected : Bool} (chosen : selection.branches.all id = selected) (holds : Bool) :
    (selection.push holds).branches.all id = (selected && holds) := by
  rw [Selection.push, List.all_cons, chosen, id, Bool.and_comm]

/-- A line that opens a conditional. -/
private theorem agree_head (opened : opens line = true) (follows : Follows state selection) :
    Agree files include_path line_number state selection (line :: rest) ↔
      Agree files include_path (line_number + 1) (state.entered (selects line state.definition))
        (selection.push (selects line state.definition)) rest :=
  agree_step (headLine_head opened) (follows.1 ▸ selectLine_opens opened) (follows.entered _)

/-- Two results in a row. -/
private theorem forall_mem_bind {α β : Type} {first : Option α} {next : α → Option β} {goal : β → Prop} :
    (∀ done ∈ first.bind next, goal done) ↔ ∀ middle ∈ first, ∀ done ∈ next middle, goal done := by
  cases first <;> simp

private theorem forall_mem_and {α : Type} {first : Option α} {left right : α → Prop} :
    (∀ done ∈ first, left done ∧ right done) ↔ (∀ done ∈ first, left done) ∧ ∀ done ∈ first, right done := by
  cases first <;> simp

variable (files include_path) in
/-- The scans agree on a body when it is right, and on what follows. -/
private def Body.Agrees (body : Body) : Prop :=
  ∀ {line_number : ℕ} {state : HeadState} {selection : Selection} {live selected : Bool} (more : List (List Char)),
    Follows state selection → state.skipping = (!live) → selection.branches.all id = selected →
      (Agree files include_path line_number state selection (body.lines ++ more) ↔
        body.Right files include_path live selected line_number state.definition state.header_files ∧
          ∀ done ∈ body.effect files include_path selected line_number state.definition state.header_files,
            Agree files include_path (line_number + body.lines.length) ((state.turned body.ending).record done)
              (selection.record done) more)

/-- `%endif`, and the body behind it. -/
private theorem agree_behind {finish : List Char} {body : Body} {holds selected : Bool} {more : List (List Char)}
    (agrees : body.Agrees files include_path) (closed : closes finish = true)
    (follows : Follows state (selection.push holds)) (chosen : selection.branches.all id = selected) :
    Agree files include_path line_number state (selection.push holds) (finish :: (body.lines ++ more)) ↔
      ((small finish = true ∨ state.skipping = true) ∧
        body.Right files include_path (small finish) selected (line_number + 1) state.definition state.header_files) ∧
          ∀ done ∈ body.effect files include_path selected (line_number + 1) state.definition state.header_files,
            Agree files include_path (line_number + 1 + body.lines.length)
              ((state.turned (body.ending.or (some (small finish)))).record done) (selection.record done) more := by
  have behind : Follows (state.turned (some (small finish))) selection :=
    ⟨(state.turned_definition _).trans follows.1, (state.turned_header_files _).trans follows.2⟩
  have flags : (state.turned (some (small finish))).skipping = !small finish := state.skipping_turned _
  rw [agree_finish closed follows, agrees more behind flags chosen, state.turned_definition, state.turned_header_files,
    state.turned_turned, and_assoc]

/-- Whether lines pass behind a body tells whether the flags let them. -/
private theorem skipping_behind {body : Body} {live : Bool} (flags : state.skipping = !live)
    (done : Definitions × List IncludeFile) :
    ((state.turned body.ending).record done).skipping = true ↔ body.after live = false := by
  have same : ((state.turned body.ending).record done).skipping = (state.turned body.ending).skipping := rfl
  rw [same, HeadState.skipping_turned, flags, Bool.not_not, Bool.not_eq_true', Body.after]

private theorem agree_body (body : Body) : body.Agrees files include_path := by
  induction body with
  | done =>
    intro line_number state selection live selected more follows flags chosen
    simp only [Body.lines, List.nil_append, Body.Right, true_and, Body.effect, Option.mem_some_iff, forall_eq',
      List.length_nil, Nat.add_zero, follows.record_self]
    rfl
  | line text plain rest ih =>
    intro line_number state selection live selected more follows flags chosen
    have count : line_number + 1 + rest.lines.length = line_number + (rest.lines.length + 1) := by omega
    rw [Body.lines, List.cons_append, agree_line plain follows flags chosen, Body.Right, Body.effect, forall_mem_bind,
      and_assoc,
      ← forall_mem_and]
    refine and_congr_right fun _ => forall₂_congr fun done _ => ?_
    rw [ih more (Follows.record state selection done) flags chosen, HeadState.record_turned, List.length_cons, count]
    rfl
  | conditional head opened first finish closed rest ih_first ih_rest =>
    intro line_number state selection live selected more follows flags chosen
    have count : line_number + 1 + first.lines.length + 1 = line_number + first.lines.length + 2 := by omega
    have total : line_number + first.lines.length + 2 + rest.lines.length =
        line_number + (first.lines.length + (rest.lines.length + 1) + 1) := by omega
    simp only [Body.lines, List.cons_append, List.append_assoc, Body.Right, Body.effect, List.length_cons,
      List.length_append]
    obtain ⟨holds, condition⟩ : ∃ holds, selects head state.definition = holds := ⟨_, rfl⟩
    have inside := flags_entered flags holds
    rw [agree_head opened follows, condition, ih_first _ (follows.entered holds) inside (all_push chosen holds),
      forall_mem_bind, and_assoc, ← forall_mem_and, state.entered_definition, state.entered_header_files]
    refine and_congr_right fun _ => forall₂_congr fun done _ => ?_
    have same : Follows (((state.entered holds).turned first.ending).record done) ((selection.record done).push holds) :=
      ⟨rfl, rfl⟩
    refine (agree_behind ih_rest closed same chosen).trans ?_
    rw [skipping_behind inside, count, total]
    refine and_congr_right fun _ => forall₂_congr fun done' _ => ?_
    rw [HeadState.record_turned_or _ state]
    rfl
  | conditionalElse head opened first middle split second finish closed rest ih_first ih_second ih_rest =>
    intro line_number state selection live selected more follows flags chosen
    have count : line_number + 1 + first.lines.length + 1 = line_number + first.lines.length + 2 := by omega
    have count' : line_number + first.lines.length + 2 + second.lines.length + 1 =
        line_number + first.lines.length + second.lines.length + 3 := by omega
    have total : line_number + first.lines.length + second.lines.length + 3 + rest.lines.length =
        line_number + (first.lines.length + (second.lines.length + (rest.lines.length + 1) + 1) + 1) := by omega
    simp only [Body.lines, List.cons_append, List.append_assoc, Body.Right, Body.effect, List.length_cons,
      List.length_append]
    obtain ⟨holds, condition⟩ : ∃ holds, selects head state.definition = holds := ⟨_, rfl⟩
    have inside := flags_entered flags holds
    rw [agree_head opened follows, condition, ih_first _ (follows.entered holds) inside (all_push chosen holds),
      forall_mem_bind, and_assoc, ← forall_mem_and, state.entered_definition, state.entered_header_files]
    refine and_congr_right fun _ => forall₂_congr fun done _ => ?_
    have same : Follows (((state.entered holds).turned first.ending).record done) ((selection.record done).push holds) :=
      ⟨rfl, rfl⟩
    refine (agree_middle split same).trans ?_
    rw [skipping_behind inside, count, and_assoc]
    refine and_congr_right fun _ => ?_
    have resumed : Follows (((state.entered holds).turned first.ending).record done).resumed
        ((selection.record done).push !holds) := ⟨rfl, rfl⟩
    have passing : (((state.entered holds).turned first.ending).record done).resumed.skipping = !true :=
      HeadState.skipping_resumed _
    refine (ih_second _ resumed passing (all_push chosen (!holds))).trans ?_
    rw [forall_mem_bind, and_assoc, ← forall_mem_and]
    refine and_congr_right fun _ => forall₂_congr fun done' _ => ?_
    have same' :
      Follows (((((state.entered holds).turned first.ending).record done).resumed.turned second.ending).record done')
        ((selection.record done').push !holds) := ⟨rfl, rfl⟩
    refine (agree_behind ih_rest closed same' chosen).trans ?_
    rw [skipping_behind passing, count', total]
    refine and_congr_right fun _ => forall₂_congr fun done'' _ => ?_
    rw [HeadState.record_turned_or _ state]
    rfl

end Scan

/-! ## Files -/

/-- A line stays a line, whatever becomes of it. -/
theorem headLines_length {files : FileSystem} {include_path : List (List Char)} {line_number : ℕ} {state state' : HeadState}
    {file lines : List (List Char)} (success : headLines files include_path line_number state file = .ok (lines, state')) :
    lines.length = file.length := by
  induction file generalizing line_number state lines with
  | nil =>
    cases success
    rfl
  | cons line rest ih =>
    rw [headLines] at success
    obtain ⟨⟨text, middle⟩, -, success⟩ := Effects.except_bind_eq_ok.mp success
    obtain ⟨⟨texts, last⟩, later, success⟩ := Effects.except_bind_eq_ok.mp success
    cases success
    rw [List.length_cons, List.length_cons, ih later]

theorem headProcess_length {files : FileSystem} {include_path : List (List Char)} {file lines : List (List Char)}
    {definition definition' : Definitions} {header_files header_files' : List IncludeFile}
    (success : headProcess files include_path file definition header_files = .ok (lines, definition', header_files')) :
    lines.length = file.length := by
  rw [headProcess] at success
  cases scanned : headLines files include_path 1 ⟨false, false, definition, header_files⟩ file with
  | error e =>
    rw [scanned] at success
    cases success
  | ok done =>
    rw [scanned] at success
    obtain rfl : done.1 = lines := congrArg Prod.fst (Except.ok.inj success)
    exact headLines_length (scanned.trans rfl)

/-- `HeadProcess` selects the right lines, as far as it gets in a well-nested file, exactly when two flags are enough
for the nesting of the file. -/
theorem headProcess_iff (files : FileSystem) (include_path : List (List Char)) (body : Body) (definition : Definitions)
    (header_files : List IncludeFile) :
    (∀ count, headProcess files include_path (body.lines.take count) definition header_files =
        selectedLines files include_path (body.lines.take count) definition header_files) ↔
      body.Right files include_path true true 1 definition header_files := by
  have start : Follows ⟨false, false, definition, header_files⟩ ⟨[], definition, header_files⟩ := ⟨rfl, rfl⟩
  have scanned := @agree_body files include_path body 1 _ _ true true [] start rfl rfl
  rw [List.append_nil] at scanned
  refine (agree_iff rfl rfl body.lines).symm.trans (scanned.trans (and_iff_left ?_))
  intro done _
  trivial

/-- A conditional with a line behind `%else`. -/
def elseBody : Body :=
  .conditionalElse "%ifdef A".toList (by decide +kernel) .done "%else".toList (by decide +kernel)
    (.line "NOP".toList (by decide +kernel) .done) "%endif".toList (by decide +kernel) .done

/-- When the conditional is taken, `%else` is kept, with the line behind it. -/
theorem headProcess_ne_selectedLines :
    let definition : Definitions := OrderedMap.empty.emplace "A".toList []
    headProcess (fun _ => none) [] elseBody.lines definition [] ≠
      selectedLines (fun _ => none) [] elseBody.lines definition [] := by
  intro definition same
  have kept : (headProcess (fun _ => none) [] elseBody.lines definition []).map Prod.fst =
      .ok (["", "%else", "NOP", ""].map String.toList) := by decide +kernel
  have selected : (selectedLines (fun _ => none) [] elseBody.lines definition []).map Prod.fst =
      .ok (["", "", "", ""].map String.toList) := by decide +kernel
  rw [same, selected] at kept
  revert kept
  decide +kernel

/-- `%endif` with capital letters after a conditional that is not taken: the line behind it is blanked. -/
example :
    let file : List (List Char) := ["%IFDEF A", "X", "%ENDIF", "Y"].map String.toList
    (headProcess (fun _ => none) [] file .empty []).map Prod.fst = .ok (["", "", "", ""].map String.toList) ∧
      (selectedLines (fun _ => none) [] file .empty []).map Prod.fst = .ok (["", "", "", "Y"].map String.toList) := by
  decide +kernel

end Sysdarft.Coding
