import Mathlib.Data.List.TakeWhile
import Sysdarft.Proofs.ConditionalLines
import Sysdarft.Proofs.Sections

/-! # Lines that are passed on

A line that is no directive and no label reaches the assembler without its comment, with spaces for its tabs and with
the sub-labels of its section replaced, unless a conditional blanks it. Replacements by `.equ` are left out here.
-/

namespace Sysdarft.Coding

/-! ## Headers and definitions -/

/-- A line that is no directive is kept or blanked, and changes nothing. -/
theorem headLine_plain {files : FileSystem} {include_path : List (List Char)} {line_number : ℕ} {state : HeadState}
    {line : List Char} (plain : ∀ directive : Directive, lineMatches directive.pattern (headText line) = false) :
    headLine files include_path line_number state line = .ok (if state.skipping then [] else headText line, state) := by
  cases skips : state.skipping with
  | true =>
    rw [headLine_skipped (plain .endif) skips, if_pos rfl]
    exact congrArg (fun state => Except.ok ([], state)) (if_neg ((Bool.not_eq_true _).mpr (plain .else)))
  | false =>
    have unopened : opens line = false := by
      rw [opens, Bool.or_eq_false_iff]
      exact ⟨plain .ifdef, plain .ifndef⟩
    rw [headLine_kept (plain .endif) unopened skips, keptLine]
    dsimp only
    rw [show lineMatches includePattern (headText line) = false from plain .include,
      show lineMatches definePattern (headText line) = false from plain .define,
      show lineMatches errorPattern (headText line) = false from plain .error, if_neg Bool.false_ne_true,
      if_neg Bool.false_ne_true, if_neg Bool.false_ne_true, if_neg Bool.false_ne_true]
    rfl

/-- A file is scanned in two parts. -/
theorem headLines_append {files : FileSystem} {include_path : List (List Char)} {line_number : ℕ} {state last : HeadState}
    {before after lines : List (List Char)} :
    headLines files include_path line_number state (before ++ after) = .ok (lines, last) ↔
      ∃ earlier reached later, headLines files include_path line_number state before = .ok (earlier, reached) ∧
        headLines files include_path (line_number + before.length) reached after = .ok (later, last) ∧
          lines = earlier ++ later := by
  induction before generalizing line_number state lines with
  | nil =>
    constructor
    · intro done
      exact ⟨[], state, lines, rfl, done, rfl⟩
    · rintro ⟨earlier, reached, later, first, second, rfl⟩
      cases first
      exact second
  | cons line before ih =>
    have place : line_number + (line :: before).length = line_number + 1 + before.length := by
      rw [List.length_cons]
      omega
    rw [List.cons_append, headLines, headLines, Effects.except_bind_eq_ok, place]
    constructor
    · rintro ⟨⟨text, middle⟩, turn, done⟩
      obtain ⟨⟨texts, final⟩, more, same⟩ := Effects.except_bind_eq_ok.mp done
      obtain ⟨rfl, rfl⟩ := Prod.mk.inj (Except.ok.inj same)
      obtain ⟨earlier, reached, later, first, second, rfl⟩ := ih.mp more
      refine ⟨text :: earlier, reached, later, ?_, second, rfl⟩
      exact Effects.except_bind_eq_ok.mpr ⟨_, turn, Effects.except_bind_eq_ok.mpr ⟨_, first, rfl⟩⟩
    · rintro ⟨earlier, reached, later, first, second, rfl⟩
      obtain ⟨⟨text, middle⟩, turn, done⟩ := Effects.except_bind_eq_ok.mp first
      obtain ⟨⟨texts, final⟩, more, same⟩ := Effects.except_bind_eq_ok.mp done
      obtain ⟨rfl, rfl⟩ := Prod.mk.inj (Except.ok.inj same)
      exact ⟨_, turn, Effects.except_bind_eq_ok.mpr ⟨_, ih.mpr ⟨texts, final, later, more, second, rfl⟩, rfl⟩⟩

theorem headLines_line {files : FileSystem} {include_path : List (List Char)} {line_number : ℕ} {state state' : HeadState}
    {before after lines : List (List Char)} {line : List Char}
    (plain : ∀ directive : Directive, lineMatches directive.pattern (headText line) = false)
    (done : headLines files include_path line_number state (before ++ line :: after) = .ok (lines, state')) :
    ∃ earlier reached, headLines files include_path line_number state before = .ok (earlier, reached) ∧
      lines[before.length]? = some (if reached.skipping then [] else headText line) := by
  obtain ⟨earlier, reached, later, first, second, rfl⟩ := headLines_append.mp done
  rw [headLines, headLine_plain plain] at second
  obtain ⟨⟨text, middle⟩, turn, second⟩ := Effects.except_bind_eq_ok.mp second
  obtain ⟨⟨texts, last⟩, -, same⟩ := Effects.except_bind_eq_ok.mp second
  cases same
  refine ⟨earlier, reached, first, ?_⟩
  rw [← headLines_length first, List.getElem?_append_right le_rfl, Nat.sub_self, List.getElem?_cons_zero]
  exact congrArg some (congrArg Prod.fst (Except.ok.inj turn)).symm

/-- A line that is no directive loses its comment, unless lines are skipped when the loop reaches it. -/
theorem headProcess_line {files : FileSystem} {include_path : List (List Char)} {before after lines : List (List Char)}
    {line : List Char} {definition definition' : Definitions} {header_files header_files' : List IncludeFile}
    (plain : ∀ directive : Directive, lineMatches directive.pattern (headText line) = false)
    (done : headProcess files include_path (before ++ line :: after) definition header_files =
      .ok (lines, definition', header_files')) :
    ∃ earlier reached, headLines files include_path 1 ⟨false, false, definition, header_files⟩ before =
        .ok (earlier, reached) ∧
      lines[before.length]? = some (if reached.skipping then [] else headText line) := by
  obtain ⟨⟨texts, state⟩, scanned, same⟩ := Effects.except_map_eq_ok.mp done
  cases same
  exact headLines_line plain scanned

/-! ## Preprocessing -/

/-- A line that the loop over the directives leaves alone. -/
structure Passed (text : List Char) : Prop where
  code : ∀ c ∈ text, isCode c = true
  undeclared : isLineEmpty text = false → ∀ tables, declare text tables = none

theorem declareLines_line {env : Environment}
    {nested : List (List Char) → List IncludeFile → Tables → Nested (List (List Char) × Tables)}
    {headers : List IncludeFile} {line_number : ℕ} {before after file' : List (List Char)} {line : List Char}
    {tables tables' : Tables}
    (passed : Passed line)
    (done : (declareLines env nested headers line_number (before ++ line :: after) tables).run =
      some (.ok (file', tables'))) :
    file'[before.length]? = some line := by
  induction before generalizing line_number tables tables' file' with
  | nil =>
    rw [List.nil_append, declareLines] at done
    obtain ⟨middle, -, done⟩ := Effects.nested_bind_eq_ok.mp done
    have whole : truncateAfterSemicolonOrHash line = line := List.takeWhile_eq_self_iff.mpr passed.code
    dsimp only at done
    rw [whole] at done
    cases visible : isLineEmpty line with
    | true =>
      rw [visible, if_pos rfl] at done
      obtain ⟨⟨later, last⟩, -, same⟩ := Effects.nested_bind_eq_ok.mp done
      obtain ⟨rfl, -⟩ := Prod.mk.inj (Effects.nested_pure_eq_ok.mp same)
      rfl
    | false =>
      rw [visible, if_neg Bool.false_ne_true, passed.undeclared visible] at done
      obtain ⟨rfl, -⟩ := Prod.mk.inj (Effects.nested_pure_eq_ok.mp done)
      rfl
  | cons other before ih =>
    rw [List.cons_append, declareLines] at done
    obtain ⟨middle, -, done⟩ := Effects.nested_bind_eq_ok.mp done
    dsimp only at done
    split_ifs at done with blank
    · obtain ⟨⟨later, last⟩, more, same⟩ := Effects.nested_bind_eq_ok.mp done
      obtain ⟨rfl, -⟩ := Prod.mk.inj (Effects.nested_pure_eq_ok.mp same)
      exact ih more
    · split at done
      · obtain ⟨⟨later, last⟩, more, same⟩ := Effects.nested_bind_eq_ok.mp done
        obtain ⟨rfl, -⟩ := Prod.mk.inj (Effects.nested_pure_eq_ok.mp same)
        exact ih more
      · obtain ⟨rfl, -⟩ := Prod.mk.inj (Effects.nested_pure_eq_ok.mp done)
        exact List.getElem?_append_right (Nat.le_refl _) |>.trans (by simp)

theorem cleanText_eq (line : List Char) : cleanText line = headText line := by
  rw [cleanText, replaceAll_eq, show "\t".toList = ['\t'] from rfl, Text.replaceAll_singleton, headText_eq]
  rfl

/-- Without replacements every line stays. -/
theorem mapM_sedEqu {env : Environment} {equ_replacement : OrderedMap (List Char) (List Char)}
    {file file' : List (List Char)}
    (none : equ_replacement.entries = []) (done : file.mapM (sedEqu env equ_replacement) = .ok file') : file' = file := by
  have same := Effects.except_mapM_eq_ok.mp done
  induction same with
  | nil => rfl
  | cons first later ih =>
    rw [sedEqu, none] at first
    rw [← Except.ok.inj first, ih (Effects.except_mapM_eq_ok.mpr later)]

/-- A line that is no label is rewritten with the sub-labels of its section. When that is no directive, it is what the
assembler gets. -/
theorem preProcess_line {env : Environment} {fuel : ℕ} {before after file' : List (List Char)} {line : List Char}
    {headers : List IncludeFile} {tables tables' : Tables} (unmarked : lineMatches lineMarkPattern (cleanText line) = false)
    (done : (preProcess env fuel (before ++ line :: after) headers tables).run = some (.ok (file', tables')))
    (none : tables'.equ_replacement.entries = []) :
    ∃ text, replaceMarkers env.reading (sectionMarkers (upperLabel (before.map cleanText))
        (sectionOf (before.map cleanText) (cleanText line) (after.map cleanText))) (cleanText line) = .ok text ∧
      (Passed text → file'[before.length]? = some text) := by
  cases fuel with
  | zero => cases done
  | succ fuel =>
    rw [preProcess, List.map_append, List.map_cons] at done
    obtain ⟨⟨lines, markers⟩, registered, done⟩ := Effects.nested_bind_eq_ok.mp done
    obtain ⟨⟨declared, last⟩, more, done⟩ := Effects.nested_bind_eq_ok.mp done
    obtain ⟨replaced, sed, same⟩ := Effects.nested_bind_eq_ok.mp done
    obtain ⟨rfl, rfl⟩ := Prod.mk.inj (Effects.nested_pure_eq_ok.mp same)
    obtain rfl := mapM_sedEqu none (Option.some.inj sed)
    have other : isUpperLine (cleanText line) = false := by rw [isUpperLine, unmarked, Bool.false_and]
    have plain : isSubLine (cleanText line) = false := by rw [isSubLine, unmarked, Bool.false_and]
    obtain ⟨text, place, rewritten⟩ := lineMarkerRegister_line other (Option.some.inj registered)
    rw [pendingLine, plain, if_neg Bool.false_ne_true] at rewritten
    refine ⟨text, rewritten, fun passed => ?_⟩
    rw [List.length_map] at place
    obtain ⟨inside, rfl⟩ := List.getElem?_eq_some_iff.mp place
    have whole : lines = lines.take before.length ++ lines[before.length] :: lines.drop (before.length + 1) := by
      rw [List.getElem_cons_drop, List.take_append_drop]
    rw [whole] at more
    have kept := declareLines_line passed more
    rwa [List.length_take, min_eq_left inside.le] at kept

end Sysdarft.Coding
