import Sysdarft.Coding.Assembler
import Sysdarft.Library.OrderedMap

/-! # Headers, definitions and conditional lines

`HeadProcess` walks over a file once. `%include` records the content of a header with the number of the line,
`%define` adds a definition and turns into `.equ`, and two flags decide which lines between `%ifdef`, `%else` and
`%endif` are blanked. The file system is a parameter: the lines of the file that opens under a path.
-/

namespace Sysdarft.Coding

/-- What opens under a path, as `std::getline` reads it. -/
abbrev FileSystem := List Char → Option (List (List Char))

/-- `include_file_t`. -/
structure IncludeFile where
  file_name : List Char
  appearance_at_line_num : ℕ
  content : List (List Char)
deriving DecidableEq, Repr

/-- `source_file_c_style_definition_t`. -/
abbrev Definitions := OrderedMap (List Char) (List Char)

section Patterns

open Regex

/-- `\s*\%include\s+\"(.*)\"\s*`, in either case. -/
def includePattern : Regex :=
  seq (star space) (seq (litNoCase "%include".toList) (seq (plus space) (seq (chr '"') (seq (group 1 (star dot))
    (seq (chr '"') (star space))))))

def isLetter (c : Char) : Bool := decide ('A' ≤ c ∧ c ≤ 'Z') || decide ('a' ≤ c ∧ c ≤ 'z') || c == '_'

def isNameChar (c : Char) : Bool := isLetter c || Numerals.isDecimal c

/-- `[A-Za-z_]+|[A-Za-z0-9_]+`, letters first. -/
def macroName : Regex := alt (plus (sat isLetter)) (plus (sat isNameChar))

/-- `\s*directive\s+([A-Za-z_]+|[A-Za-z0-9_]+)\s*`, in either case. -/
def conditionPattern (directive : List Char) : Regex :=
  seq (star space) (seq (litNoCase directive) (seq (plus space) (seq (group 1 macroName) (star space))))

def ifdefPattern : Regex := conditionPattern "%ifdef".toList

def ifndefPattern : Regex := conditionPattern "%ifndef".toList

/-- `\s*\%define\s+([A-Za-z_]+|[A-Za-z0-9_]+)(.*)`, in either case. -/
def definePattern : Regex :=
  seq (star space) (seq (litNoCase "%define".toList) (seq (plus space) (seq (group 1 macroName) (group 2 (star dot)))))

/-- `\s*\%else\s*`, in either case. -/
def elsePattern : Regex := seq (star space) (seq (litNoCase "%else".toList) (star space))

/-- `\s*\%endif\s*`. -/
def endifPattern : Regex := seq (star space) (seq (lit "%endif".toList) (star space))

/-- `\s*directive\s+(.*)`. -/
def reportPattern (directive : List Char) : Regex :=
  seq (star space) (seq (lit directive) (seq (plus space) (group 1 (star dot))))

def warningPattern : Regex := reportPattern "%warning".toList

def errorPattern : Regex := reportPattern "%error".toList

end Patterns

/-- `std::regex_match`, without the groups. -/
def lineMatches (pattern : Regex) (line : List Char) : Bool := (Regex.fullMatch pattern line).isSome

/-- A group of the match of a whole line, empty when there is no match. -/
def capture (pattern : Regex) (index : ℕ) (line : List Char) : List Char :=
  ((Regex.fullMatch pattern line).map fun captures => captures.get index).getD []

/-- `truncateAfterSemicolonOrHash`. -/
def truncateAfterSemicolonOrHash (input : List Char) : List Char := input.takeWhile fun c => c != ';' && c != '#'

/-! ## Includes -/

/-- `std::fstream`: the open file, and the fail state. -/
structure InputStream where
  file : Option (List (List Char))
  fail : Bool
deriving DecidableEq

/-- A stream before its first `open`. -/
def InputStream.closed : InputStream := ⟨none, false⟩

/-- `open` fails when a file is open already. -/
def InputStream.openFile (files : FileSystem) (stream : InputStream) (path : List Char) : InputStream :=
  match stream.file with
  | some _ => { stream with fail := true }
  | none =>
    match files path with
    | some content => ⟨some content, false⟩
    | none => ⟨none, true⟩

/-- The search loop: it ends at the first directory after which no file is open. -/
def searchIncludePath (files : FileSystem) (include_file : List Char) : List (List Char) → InputStream → InputStream
  | [], infile => infile
  | path :: rest, infile =>
    let infile := infile.openFile files (path ++ '/' :: include_file)
    if infile.file.isNone then infile else searchIncludePath files include_file rest infile

/-- `process_include`: the recorded header; the line is cleared. -/
def processInclude (files : FileSystem) (include_path : List (List Char)) (line_number : ℕ) (line : List Char) :
    Except BuildError IncludeFile :=
  let include_file := capture includePattern 1 line
  let infile := InputStream.closed.openFile files include_file
  let infile := if infile.file.isNone then searchIncludePath files include_file include_path infile else infile
  if infile.fail then .error (.preProcessor ("Couldn't open include file ".toList ++ include_file))
  else .ok ⟨include_file, line_number, infile.file.getD []⟩

/-! ## Definitions -/

/-- The `.equ` line that takes the place of a definition. -/
def equLine (marco_name marco_value : List Char) : List Char :=
  ".equ '".toList ++ marco_name ++ "', '".toList ++ marco_value ++ "'".toList

/-- `process_define`: the new line and the new definitions. -/
def processDefine (line : List Char) (definition_list : Definitions) : List Char × Definitions :=
  let marco_name := replaceAll (capture definePattern 1 line) [' '] []
  let marco_value := replaceAll (capture definePattern 2 line) [' '] []
  (equLine marco_name marco_value, definition_list.emplace marco_name marco_value)

/-! ## Lines -/

/-- The local flags of `HeadProcess`, and what it changes besides the lines. -/
structure HeadState where
  inside_ifdef : Bool
  requested_marco_present : Bool
  definition : Definitions
  header_files : List IncludeFile

/-- Tabs become four spaces, comments go. -/
def headText (line : List Char) : List Char := truncateAfterSemicolonOrHash (replaceAll line "\t".toList "    ".toList)

/-- One turn of the loop: the line that stays, and the state. -/
def headLine (files : FileSystem) (include_path : List (List Char)) (line_number : ℕ) (state : HeadState)
    (line : List Char) :
    Except BuildError (List Char × HeadState) :=
  let line := headText line
  if lineMatches endifPattern line then
    .ok ([], { state with inside_ifdef := false, requested_marco_present := false })
  else if state.inside_ifdef && !state.requested_marco_present then
    .ok ([], if lineMatches elsePattern line then { state with requested_marco_present := true } else state)
  else if lineMatches includePattern line then
    (processInclude files include_path line_number line).map fun file =>
      ([], { state with header_files := state.header_files ++ [file] })
  else if lineMatches definePattern line then
    let (line, definition) := processDefine line state.definition
    .ok (line, { state with definition })
  else if lineMatches ifdefPattern line then
    let what_is_being_requested := capture ifdefPattern 1 line
    .ok ([], { state with
      inside_ifdef := true, requested_marco_present := state.definition.contains what_is_being_requested })
  else if lineMatches ifndefPattern line then
    let what_is_being_requested := capture ifndefPattern 1 line
    .ok ([], { state with
      inside_ifdef := true, requested_marco_present := !state.definition.contains what_is_being_requested })
  else if lineMatches warningPattern line then .ok (line, state)
  else if lineMatches errorPattern line then
    .error (.preProcessor ("Exception caught from source file: ".toList ++ capture errorPattern 1 line))
  else .ok (line, state)

/-- The loop, from a line number on. -/
def headLines (files : FileSystem) (include_path : List (List Char)) :
    ℕ → HeadState → List (List Char) → Except BuildError (List (List Char) × HeadState)
  | _, state, [] => .ok ([], state)
  | line_number, state, line :: rest => do
    let (line, state) ← headLine files include_path line_number state line
    let (rest, state) ← headLines files include_path (line_number + 1) state rest
    return (line :: rest, state)

/-- `HeadProcess`: the lines, the definitions and the headers. -/
def headProcess (files : FileSystem) (include_path : List (List Char)) (file : List (List Char)) (definition : Definitions)
    (header_files : List IncludeFile) : Except BuildError (List (List Char) × Definitions × List IncludeFile) :=
  (headLines files include_path 1 ⟨false, false, definition, header_files⟩ file).map fun (file, state) =>
    (file, state.definition, state.header_files)

end Sysdarft.Coding
