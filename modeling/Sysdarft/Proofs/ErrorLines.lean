import Sysdarft.Proofs.ConditionalLines
import Sysdarft.Proofs.Sections
import Sysdarft.Proofs.SourceInstructions

/-! # The line an error names

The stages before the assembler change the lines of a file and keep their number. So the number that the assembler
puts into its message counts the lines of the file as it was read.
-/

namespace Sysdarft.Coding

/-! ## The number of lines -/

section Length

variable {env : Environment} {nested : List (List Char) → List IncludeFile → Tables → Nested (List (List Char) × Tables)}
  {file file' : List (List Char)} {headers : List IncludeFile} {tables tables' : Tables}

theorem declareLines_length {line_number : ℕ}
    (done : (declareLines env nested headers line_number file tables).run = some (.ok (file', tables'))) :
    file'.length = file.length := by
  induction file generalizing line_number file' tables with
  | nil =>
    obtain ⟨rfl, -⟩ := Prod.mk.inj (Effects.nested_pure_eq_ok.mp done)
    rfl
  | cons line rest ih =>
    rw [declareLines] at done
    obtain ⟨middle, -, done⟩ := Effects.nested_bind_eq_ok.mp done
    dsimp only at done
    split_ifs at done with blank
    · obtain ⟨⟨later, after⟩, more, same⟩ := Effects.nested_bind_eq_ok.mp done
      obtain ⟨rfl, rfl⟩ := Prod.mk.inj (Effects.nested_pure_eq_ok.mp same)
      exact congrArg (· + 1) (ih more)
    · split at done
      · obtain ⟨⟨later, after⟩, more, same⟩ := Effects.nested_bind_eq_ok.mp done
        obtain ⟨rfl, rfl⟩ := Prod.mk.inj (Effects.nested_pure_eq_ok.mp same)
        exact congrArg (· + 1) (ih more)
      · obtain ⟨rfl, -⟩ := Prod.mk.inj (Effects.nested_pure_eq_ok.mp done)
        rfl

theorem preProcess_length {fuel : ℕ} (done : (preProcess env fuel file headers tables).run = some (.ok (file', tables'))) :
    file'.length = file.length := by
  cases fuel with
  | zero => cases done
  | succ fuel =>
    rw [preProcess] at done
    obtain ⟨⟨lines, markers⟩, registered, done⟩ := Effects.nested_bind_eq_ok.mp done
    obtain ⟨⟨declared, after⟩, more, done⟩ := Effects.nested_bind_eq_ok.mp done
    obtain ⟨replaced, each, same⟩ := Effects.nested_bind_eq_ok.mp done
    obtain ⟨rfl, -⟩ := Prod.mk.inj (Effects.nested_pure_eq_ok.mp same)
    have registered_ok : lineMarkerRegister env.reading (file.map cleanText) = .ok (lines, markers) :=
      Option.some.inj registered
    have each_ok : declared.mapM (sedEqu env after.equ_replacement) = .ok replaced := Option.some.inj each
    rw [← (Effects.except_mapM_eq_ok.mp each_ok).length_eq, declareLines_length more,
      lineMarkerRegister_length registered_ok,
      List.length_map]

end Length

/-! ## The files of a build -/

/-- A file that the assembler gets, with the name and the number of lines of the file that was read. -/
def Numbers (files : FileSystem) (name : List Char) (file : FileAttr) : Prop :=
  file.filename = name ∧ ∃ text, files name = some text ∧ file.file.length = text.length

section Stages

variable {env : Environment} {fuel org org' : ℕ} {names : List (List Char)} {sources files : List FileAttr}
    {name : List Char}
  {file file' : FileAttr}

theorem readFile_numbers (done : readFile env.files name = .ok file) : Numbers env.files name file := by
  rw [readFile] at done
  split at done
  · rename_i text found
    obtain rfl := Except.ok.inj done
    exact ⟨rfl, text, found, rfl⟩
  · cases done

theorem Numbers.head (numbers : Numbers env.files name file) (done : headFile env file = .ok file') :
    Numbers env.files name file' := by
  obtain ⟨named, text, found, length⟩ := numbers
  obtain ⟨⟨lines, definition, header_files⟩, head, rfl⟩ :=
    Effects.except_map_eq_ok.mp (Effects.except_mapError_eq_ok.mp done)
  exact ⟨named, text, found, (headProcess_length head).trans length⟩

theorem Numbers.preProcess (numbers : Numbers env.files name file)
    (done : (preProcessFile env fuel org file).run = some (.ok (file', org'))) : Numbers env.files name file' := by
  obtain ⟨named, text, found, length⟩ := numbers
  obtain ⟨⟨lines, tables⟩, ran, same⟩ := Effects.nested_bind_eq_ok.mp (Effects.nested_adapt_eq_ok.mp done)
  obtain ⟨rfl, -⟩ := Prod.mk.inj (Effects.nested_pure_eq_ok.mp same)
  exact ⟨named, text, found, (preProcess_length ran).trans length⟩

theorem preProcessEach_numbers (numbers : List.Forall₂ (Numbers env.files) names sources)
    (done : (preProcessEach env fuel org sources).run = some (.ok (files, org'))) :
    List.Forall₂ (Numbers env.files) names files := by
  induction numbers generalizing org files with
  | nil =>
    obtain ⟨rfl, -⟩ := Prod.mk.inj (Effects.nested_pure_eq_ok.mp done)
    exact .nil
  | cons first rest ih =>
    obtain ⟨⟨made, middle⟩, here, done⟩ := Effects.nested_bind_eq_ok.mp done
    obtain ⟨⟨later, behind⟩, more, same⟩ := Effects.nested_bind_eq_ok.mp done
    obtain ⟨rfl, rfl⟩ := Prod.mk.inj (Effects.nested_pure_eq_ok.mp same)
    exact .cons (first.preProcess here) (ih more)

/-- Every source file comes to the assembler under its name and with all its lines. -/
theorem preProcessFiles_numbers (read : readFiles env.files names = .ok sources)
    (done : (preProcessFiles env fuel org sources).run = some (.ok (files, org'))) :
    List.Forall₂ (Numbers env.files) names files := by
  obtain ⟨heads, head, each⟩ := Effects.nested_bind_eq_ok.mp done
  have head_ok : sources.mapM (headFile env) = .ok heads := Option.some.inj head
  refine preProcessEach_numbers ?_ each
  have opened := Effects.except_mapM_eq_ok.mp read
  have headed := Effects.except_mapM_eq_ok.mp head_ok
  clear read done head each head_ok
  induction opened generalizing heads with
  | nil =>
    cases headed
    exact .nil
  | cons first rest ih =>
    cases headed with
    | cons here later => exact .cons ((readFile_numbers first).head here) (ih _ later)

end Stages

/-! ## The line that is refused -/

/-- What a line is refused with. -/
inductive LineError (number : ℕ) : BuildError → Prop where
  | code (cause : BuildError) : LineError number (.assembler
      ("Line: ".toList ++ Numerals.decimal number ++ ": Error occurred when compiling: ".toList ++ cause.what))
  | label (marker : List Char) : LineError number (.assembler ("Multiple definition of ".toList ++ marker))

/-- A line of a file is refused, and none before it. -/
structure Refused (bc : Calculator) (origin : ℕ) (markers : List LineMarker) (file : List (List Char)) (number : ℕ)
    (error : BuildError) : Prop where
  line : ∃ lines line rest assembly, file = lines ++ line :: rest ∧ number = lines.length + 1 ∧
    assembleLines bc origin markers lines = .ok assembly ∧ assembleLine bc origin assembly (number, line) = .error error

/-- A line of one of the files is refused, and none before it. -/
structure RefusedAt (bc : Calculator) (org : ℕ) (files : List FileAttr) (index number : ℕ) (name : List Char)
    (cause : BuildError) :
    Prop where
  file : ∃ before file after objects origin, files = before ++ file :: after ∧ index = before.length ∧ name = file.filename ∧
    assembleFiles bc org before = .ok (objects, origin) ∧ Refused bc origin file.symbol_table file.file number cause

section Errors

variable {bc : Calculator} {org origin number : ℕ} {markers : List LineMarker} {lines : List (List Char)} {line : List Char}
  {assembly : Assembly} {files : List FileAttr} {error : BuildError}

theorem emplaceMarker_error {marker : List Char} {offset : ℕ} (failed : emplaceMarker marker offset markers = .error error) :
    error = .assembler ("Multiple definition of ".toList ++ marker) := by
  induction markers with
  | nil => cases failed
  | cons defined_marker rest ih =>
    rw [emplaceMarker] at failed
    split_ifs at failed
    · exact (Except.error.inj failed).symm
    · exact ih (Effects.except_map_eq_error.mp failed)

theorem assembleLine_error (failed : assembleLine bc origin assembly (number, line) = .error error) :
    LineError number error := by
  rw [assembleLine] at failed
  dsimp only at failed
  split_ifs at failed
  split at failed
  · rw [emplaceMarker_error (Effects.except_map_eq_error.mp failed)]
    exact .label _
  · obtain ⟨cause, -, rfl⟩ := Effects.except_mapError_eq_error.mp failed
    exact .code cause

/-- The loop over the lines fails exactly when a line is refused. -/
theorem assembleLines_error : assembleLines bc origin markers lines = .error error ↔
    ∃ number, Refused bc origin markers lines number error := by
  induction lines using List.reverseRecOn with
  | nil =>
    constructor
    · intro failed
      cases failed
    · rintro ⟨number, ⟨lines, line, rest, assembly, split, -⟩⟩
      exact absurd split.symm (by simp)
  | append_singleton lines line ih =>
    rw [assembleLines, numbered_concat, List.foldlM_append, Effects.except_bind_eq_error, ← assembleLines, ih]
    constructor
    · rintro (⟨number, ⟨front, refused, rest, assembly, rfl, at_, done, failed⟩⟩ | ⟨assembly, done, failed⟩)
      · exact ⟨number, ⟨front, refused, rest ++ [line], assembly, by simp, at_, done, failed⟩⟩
      · rw [List.foldlM_cons, Effects.except_bind_eq_error] at failed
        rcases failed with failed | ⟨after, -, last⟩
        · exact ⟨_, ⟨lines, line, [], assembly, rfl, rfl, done, failed⟩⟩
        · cases last
    · rintro ⟨number, ⟨front, refused, rest, assembly, split, at_, done, failed⟩⟩
      rcases List.eq_nil_or_concat rest with rfl | ⟨rest, last, rfl⟩
      · obtain ⟨rfl, same⟩ := List.append_inj' split rfl
        obtain rfl := (List.cons.inj same).1
        refine .inr ⟨assembly, done, ?_⟩
        rw [List.foldlM_cons, Effects.except_bind_eq_error]
        exact .inl (at_ ▸ failed)
      · rw [List.concat_eq_append, ← List.cons_append, ← List.append_assoc] at split
        obtain ⟨rfl, -⟩ := List.append_inj' split rfl
        exact .inl ⟨number, ⟨front, refused, rest, assembly, rfl, at_, done, failed⟩⟩

theorem sysdarftAssemble_error : sysdarftAssemble bc lines origin markers = .error error ↔
    ∃ number, Refused bc origin markers lines number error := by
  rw [sysdarftAssemble, Effects.except_bind_eq_error, ← assembleLines, assembleLines_error]
  refine or_iff_left ?_
  rintro ⟨assembly, -, failed⟩
  cases failed

theorem Refused.lineError (refused : Refused bc origin markers lines number error) : LineError number error := by
  obtain ⟨front, line, rest, assembly, -, -, -, failed⟩ := refused
  exact assembleLine_error failed

theorem Refused.number_le (refused : Refused bc origin markers lines number error) : 1 ≤ number ∧ number ≤ lines.length := by
  obtain ⟨front, line, rest, assembly, rfl, rfl, -, -⟩ := refused
  refine ⟨Nat.le_add_left .., ?_⟩
  rw [List.length_append, List.length_cons]
  omega

/-- The assembler throws exactly when a line of a file is refused, and its message is about the first one. -/
theorem assembleFiles_error : assembleFiles bc org files = .error error ↔
    ∃ index number name cause, RefusedAt bc org files index number name cause ∧ error = fileError name cause := by
  induction files generalizing org with
  | nil =>
    constructor
    · intro failed
      cases failed
    · rintro ⟨index, number, name, cause, ⟨before, file, after, objects, origin, split, -⟩, -⟩
      exact absurd split.symm (by simp)
  | cons file files ih =>
    rw [assembleFiles, Effects.except_bind_eq_error]
    constructor
    · rintro (failed | ⟨⟨object, position⟩, done, failed⟩)
      · obtain ⟨cause, thrown, rfl⟩ := Effects.except_mapError_eq_error.mp failed
        obtain ⟨number, refused⟩ := sysdarftAssemble_error.mp thrown
        exact ⟨0, number, _, cause, ⟨[], file, files, [], org, rfl, rfl, rfl, rfl, refused⟩, rfl⟩
      · have first := Effects.except_mapError_eq_ok.mp done
        rcases Effects.except_bind_eq_error.mp failed with failed | ⟨⟨later, behind⟩, -, last⟩
        · obtain ⟨index, number, name, cause, ⟨before, at_, after, objects, origin, rfl, rfl, named, early, refused⟩,
            same⟩ := ih.mp failed
          exact ⟨_, number, name, cause, ⟨file :: before, at_, after, object :: objects, origin, rfl, rfl, named,
            assembleFiles_cons.mpr ⟨object, position, objects, first, early, rfl⟩, refused⟩, same⟩
        · cases last
    · rintro ⟨index, number, name, cause, ⟨before, at_, after, objects, origin, split, -, rfl, early, refused⟩, rfl⟩
      cases before with
      | nil =>
        obtain ⟨rfl, rfl⟩ := List.cons.inj split
        obtain ⟨-, rfl⟩ := Prod.mk.inj (Except.ok.inj early)
        exact .inl (Effects.except_mapError_eq_error.mpr ⟨cause, sysdarftAssemble_error.mpr ⟨number, refused⟩, rfl⟩)
      | cons head before =>
        obtain ⟨rfl, rfl⟩ := List.cons.inj split
        obtain ⟨object, position, later, first, front, rfl⟩ := assembleFiles_cons.mp early
        refine .inr ⟨(object, position), Effects.except_mapError_eq_ok.mpr first, Effects.except_bind_eq_error.mpr (.inl ?_)⟩
        exact ih.mpr ⟨_, number, _, cause, ⟨before, at_, after, later, origin, rfl, rfl, rfl, front, refused⟩, rfl⟩

end Errors

section Driver

variable {env : Environment} {bc : Calculator} {verbose : Bool} {fuel org index number : ℕ}
    {source_files : List (List Char)} {name : List Char}
  {compile_mode : CompilationMode} {sources files : List FileAttr} {cause : BuildError}

/-- The refused line is one of the source file with this name. -/
theorem RefusedAt.source (refused : RefusedAt bc org files index number name cause)
    (numbers : List.Forall₂ (Numbers env.files) source_files files) :
    source_files[index]? = some name ∧ ∃ text, env.files name = some text ∧ 1 ≤ number ∧ number ≤ text.length := by
  obtain ⟨before, file, after, objects, origin, rfl, rfl, rfl, -, refused⟩ := refused
  have there : (before ++ file :: after)[before.length]? = some file := by
    rw [List.getElem?_append_right le_rfl, Nat.sub_self]
    rfl
  obtain ⟨inside, same⟩ := List.getElem?_eq_some_iff.mp there
  have counted : before.length < source_files.length := numbers.length_eq ▸ inside
  obtain ⟨named, text, found, length⟩ := numbers.get counted inside
  rw [List.get_eq_getElem, List.get_eq_getElem, same] at *
  obtain ⟨positive, bound⟩ := refused.number_le
  refine ⟨?_, text, ?_, positive, length ▸ bound⟩
  · rw [List.getElem?_eq_getElem counted, named]
  · rw [named]
    exact found

/-- When the files are read and preprocessed, a build is refused for the first line that the assembler does not accept,
with the name
of its source file and, unless the line defines a label again, with its number. Otherwise all files are assembled. -/
theorem compileToBinary_refused (read : readFiles env.files source_files = .ok sources)
    (preprocessed : (preProcessFiles env fuel 0 sources).run = some (.ok (files, org))) :
    (∀ index number name cause, RefusedAt bc org files index number name cause →
      (compileToBinary env bc verbose fuel source_files compile_mode).run = some (.error (fileError name cause)) ∧
      LineError number cause ∧ source_files[index]? = some name ∧
      ∃ text, env.files name = some text ∧ 1 ≤ number ∧ number ≤ text.length) ∧
    ((∃ objects behind, assembleFiles bc org files = .ok (objects, behind)) ∨
      ∃ index number name cause, RefusedAt bc org files index number name cause) := by
  refine ⟨fun index number name cause refused => ?_, ?_⟩
  · have failed : assembleFiles bc org files = .error (fileError name cause) :=
      assembleFiles_error.mpr ⟨index, number, name, cause, refused, rfl⟩
    obtain ⟨named, found⟩ := refused.source (preProcessFiles_numbers read preprocessed)
    obtain ⟨before, file, after, objects, origin, -, -, -, -, first⟩ := refused.file
    refine ⟨?_, first.lineError, named, found⟩
    refine Effects.nested_bind_error (congrArg some read) (Effects.nested_bind_error preprocessed ?_)
    change (Nested.ofExcept (assembleFiles bc org files) >>= _).run = _
    rw [failed]
    rfl
  · cases assembled : assembleFiles bc org files with
    | ok done => exact .inl ⟨done.1, done.2, rfl⟩
    | error error =>
      obtain ⟨index, number, name, cause, refused, -⟩ := assembleFiles_error.mp assembled
      exact .inr ⟨index, number, name, cause, refused⟩

end Driver

/-- A file with a comment, an instruction, and a slip in line 3. -/
def slipFiles : FileSystem := fun name =>
  if name = "a".toList then some ["; start".toList, "NOP".toList, "MOVE <%R0>".toList] else none

def slipEnvironment : Environment := { bareEnvironment with files := slipFiles }

def slipError : BuildError :=
  fileError "a".toList (.assembler ("Line: ".toList ++ Numerals.decimal 3 ++ ": Error occurred when compiling: ".toList ++
    (BuildError.coding (.instructionExpression "Unknown instruction MOVE <%R0>".toList)).what))

theorem compileToBinary_refused_slip : ∃ org files, assembleFiles numeralCalculator org files = .error slipError ∧
    (∀ index number name cause, RefusedAt numeralCalculator org files index number name cause →
      (compileToBinary slipEnvironment numeralCalculator false 1 ["a".toList] .bin).run =
      some (.error (fileError name cause)) ∧
      LineError number cause ∧ ["a".toList][index]? = some name ∧
      ∃ text, slipFiles name = some text ∧ 1 ≤ number ∧ number ≤ text.length) ∧
    ((∃ objects behind, assembleFiles numeralCalculator org files = .ok (objects, behind)) ∨
      ∃ index number name cause, RefusedAt numeralCalculator org files index number name cause) :=
  ⟨_, _, rfl, @compileToBinary_refused slipEnvironment numeralCalculator false 1 _ ["a".toList] .bin _ _ rfl rfl⟩

end Sysdarft.Coding
