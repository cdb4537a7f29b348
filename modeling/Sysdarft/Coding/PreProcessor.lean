import Sysdarft.Coding.HeadersAndDefinitions
import Sysdarft.Library.RegexReplace

/-! # The preprocessor

`PreProcess` registers the labels of a file, carries out the declarative directives at its beginning, and those of
the headers recorded for these lines, and applies the replacements collected on the way. A header is preprocessed
by a nested call, so the number of nested calls is bounded by a fuel argument, and `none` means that it ran out.
-/

namespace Sysdarft.Coding

section Patterns

open Regex

/-- `\s*\.org\s+((?:0x[0-9A-Fa-f]+)|(?:\d+))\s*`, in either case. -/
def orgPattern : Regex :=
  seq (star space) (seq (litNoCase ".org".toList) (seq (plus space)
    (seq (group 1 (alt (seq (litNoCase "0x".toList) (plus (sat Numerals.isHexadecimal))) (plus (sat Numerals.isDecimal))))
      (star space))))

/-- `\s*\.lab\s+([A-Za-z._][A-Za-z0-9._]*(?:\s*,\s*[A-Za-z._][A-Za-z0-9._]*)*)\s*`, in either case. -/
def labPattern : Regex :=
  seq (star space) (seq (litNoCase ".lab".toList) (seq (plus space)
    (seq (group 1 (seq labelWord (star (seq (star space) (seq (chr ',') (seq (star space) labelWord)))))) (star space))))

/-- `'([^']*)'`, with the number of the group. -/
def quoted (index : ℕ) : Regex := seq (chr '\'') (seq (group index (star (sat (· != '\'')))) (chr '\''))

/-- `\s*\.equ\s+'([^']*)'\s*,\s*'([^']*)'\s*`, in either case. -/
def equPattern : Regex :=
  seq (star space) (seq (litNoCase ".equ".toList) (seq (plus space) (seq (quoted 1) (seq (star space) (seq (chr ',')
    (seq (star space) (seq (quoted 2) (star space))))))))

end Patterns

/-- `splitString`, which reads as `std::getline` does: nothing is left behind a delimiter at the end. -/
def splitString (input : List Char) : List (List Char) :=
  let pieces := input.splitOn ','
  if pieces.getLast? = some [] then pieces.dropLast else pieces

/-! ## Whole words -/

/-- How `std::regex` reads an escaped target that has brackets or braces in it; `none` when it throws. -/
abbrev TargetReading := List Char → Option Regex

/-- A backslash in front of the special characters; brackets and braces are not among them. -/
def escapeTarget (target : List Char) : List Char :=
  "\\^$.|?*+()".toList.foldl (fun target ch => replaceAll target [ch] ['\\', ch]) target

/-- The escaped target as a pattern. Without brackets and braces it reads the target itself. -/
def targetRegex (reading : TargetReading) (target : List Char) : Option Regex :=
  if target.all fun c => !("[]{}".toList.contains c) then some (Regex.lit target) else reading (escapeTarget target)

/-- `replace_whole_word`: what stands in front of the first match is put in front of every replacement. -/
def replaceWholeWord (reading : TargetReading) (text target replacement_ : List Char) : Except BuildError (List Char) :=
  match targetRegex reading target with
  | none => .error .regex
  | some pattern =>
    let replacement := Regex.escapeDollars replacement_
    let rep_tag := Regex.wholeWord isLabelChar pattern
    let replace (format : List Char) := Regex.replaceAhead rep_tag (Regex.boundary isLabelChar) (·.format format) text
    match Regex.searchAhead rep_tag (Regex.boundary isLabelChar) text with
    | none => .ok text
    | some found =>
      match replaceAll found.text target [] with
      | [] => .ok (replace replacement)
      | [front] => .ok (replace (front :: replacement))
      | [front, back] => .ok (replace (front :: (replacement ++ [back])))
      | _ => .error (.preProcessor "Unrecognized format for regex replacement, possibly internal error".toList)

/-! ## Labels -/

/-- The local variables of `line_marker_register`. -/
structure SectionState where
  upper_line_marker : List Char
  result : List (List Char)
  sub_linemarkers : OrderedMap (List Char) (List Char)
  current_file_section : List (List Char)
  processed_file_sections : List (List (List Char))

/-- Every sub-label of the section is replaced, in the order of the map. -/
def replaceMarkers (reading : TargetReading) (sub_linemarkers : OrderedMap (List Char) (List Char)) (line : List Char) :
    Except BuildError (List Char) :=
  sub_linemarkers.entries.foldlM (fun line entry => replaceWholeWord reading line entry.1 entry.2) line

/-- The same with the test that is made when another upper label ends the section. -/
def replaceFoundMarkers (reading : TargetReading) (sub_linemarkers : OrderedMap (List Char) (List Char)) (line : List Char) :
    Except BuildError (List Char) :=
  sub_linemarkers.entries.foldlM
    (fun line entry => if entry.1 <:+: line then replaceWholeWord reading line entry.1 entry.2 else .ok line) line

def multipleDefinition (line : List Char) : BuildError :=
  .preProcessor ("Multiple definition of line markers for ".toList ++ line)

/-- One turn of the loop over the lines. -/
def registerLine (reading : TargetReading) (state : SectionState) (line : List Char) : Except BuildError SectionState :=
  if lineMatches lineMarkPattern line then
    let line := replaceAll (replaceAll (replaceAll line [' '] []) ['\t'] []) [':'] []
    if '.' ∈ line then
      let marker := state.upper_line_marker ++ replaceAll line ['.'] ['_']
      if marker ∈ state.result then .error (multipleDefinition marker)
      else .ok { state with
        sub_linemarkers := state.sub_linemarkers.emplace line marker
        result := state.result ++ [marker]
        current_file_section := state.current_file_section ++ [marker ++ [':']] }
    else do
      let current_file_section ←
        (state.current_file_section ++ [line ++ [':']]).mapM (replaceFoundMarkers reading state.sub_linemarkers)
      if line ∈ state.result then throw (multipleDefinition line)
      return {
        upper_line_marker := line
        result := state.result ++ [line]
        sub_linemarkers := .empty
        current_file_section := []
        processed_file_sections := state.processed_file_sections ++ [current_file_section] }
  else .ok { state with current_file_section := state.current_file_section ++ [line] }

/-- `line_marker_register`: the new lines and the names. -/
def lineMarkerRegister (reading : TargetReading) (file : List (List Char)) :
    Except BuildError (List (List Char) × List (List Char)) := do
  let state ← file.foldlM (registerLine reading) ⟨[], [], .empty, [], []⟩
  let current_file_section ← state.current_file_section.mapM (replaceMarkers reading state.sub_linemarkers)
  return ((state.processed_file_sections ++ [current_file_section]).flatten, state.result)

/-! ## Directives -/

/-- The closure `is_line_marker_present`. -/
def isLineMarkerPresent (defined_line_marker : List LineMarker) (marker : List Char) : Bool :=
  defined_line_marker.any fun line_marker => line_marker.line_marker_name == marker

/-- A symbol that is known by name only. -/
def declareMarker (defined_line_marker : List LineMarker) (marker : List Char) : List LineMarker :=
  if isLineMarkerPresent defined_line_marker marker then defined_line_marker
  else defined_line_marker ++ [⟨marker, 0, false, false, []⟩]

/-- `process_org`. -/
def processOrg (input : List Char) (org : ℕ) : ℕ :=
  match Regex.search orgPattern input with
  | some found => Numerals.strtoll (processBase16 (found.captures.get 1))
  | none => org

/-- `process_lab`. -/
def processLab (input : List Char) (defined_line_marker : List LineMarker) : List LineMarker :=
  match Regex.search labPattern input with
  | some found => (splitString (replaceAll (found.captures.get 1) [' '] [])).foldl declareMarker defined_line_marker
  | none => defined_line_marker

/-- `process_equ`. -/
def processEqu (input : List Char) (equ_replacement : OrderedMap (List Char) (List Char)) :
    OrderedMap (List Char) (List Char) :=
  match Regex.search equPattern input with
  | some found => equ_replacement.emplace (found.captures.get 1) (found.captures.get 2)
  | none => equ_replacement

/-! ## Replacements -/

/-- What the preprocessor runs in: the file system and the include path, the option for regular expressions with the
two programs it calls, which get an expression and a text, and the reading of irregular targets. -/
structure Environment where
  files : FileSystem
  include_path : List (List Char)
  regex : Bool
  grep : List Char → List Char → CmdStatus
  sed : List Char → List Char → CmdStatus
  reading : TargetReading

/-- One replacement through `grep` and `sed`. -/
def sedExpression (env : Environment) (input key value : List Char) : Except BuildError (List Char) := do
  let status := env.grep key input
  let input ←
    if status.exit_status = 0 then
      let result := env.sed ("s/".toList ++ key ++ "/".toList ++ value ++ "/g".toList) input
      if result.exit_status ≠ 0 then
        throw (.preProcessor ("Failed to process .equ using sed: ".toList ++ result.fd_stderr))
      else pure result.fd_stdout
    else pure input
  if status.exit_status = 127 then
    throw (.preProcessor
      "Regular expression cannot be processed since grep cannot be executed (not found)".toList)
  return input

/-- `sed_equ`. -/
def sedEqu (env : Environment) (equ_replacement : OrderedMap (List Char) (List Char)) (input : List Char) :
    Except BuildError (List Char) :=
  equ_replacement.entries.foldlM (fun input entry =>
    if env.regex then sedExpression env input entry.1 entry.2
    else if entry.1 <:+: input then replaceWholeWord env.reading input entry.1 entry.2
    else .ok input) input

/-! ## Preprocessing -/

/-- What `PreProcess` changes besides the lines. -/
structure Tables where
  defined_line_marker : List LineMarker
  org : ℕ
  equ_replacement : OrderedMap (List Char) (List Char)
  definition : Definitions

/-- A result of a computation that may not come to an end. -/
abbrev Nested := ExceptT BuildError Option

def Nested.ofExcept {α : Type} (result : Except BuildError α) : Nested α := ExceptT.mk (some result)

/-- The closure `is_header_in_this_line`: the first header recorded for the line, if its name is not empty. -/
def headerInThisLine (headers : List IncludeFile) (line_number : ℕ) : Option IncludeFile :=
  (headers.find? fun header => header.appearance_at_line_num == line_number).filter fun header => header.file_name ≠ []

/-- The directive on a line, if there is one: what it does to the tables. -/
def declare (line : List Char) (tables : Tables) : Option Tables :=
  if lineMatches orgPattern line then some { tables with org := processOrg line tables.org }
  else if lineMatches labPattern line then
    some { tables with defined_line_marker := processLab line tables.defined_line_marker }
  else if lineMatches equPattern line then
    some { tables with equ_replacement := processEqu line tables.equ_replacement }
  else none

/-- Errors of the preprocessor get the name of the header. -/
def headerError (file_name : List Char) : BuildError → BuildError
  | .preProcessor message =>
    .preProcessor
      ("Error when processing file ".toList ++ file_name ++ ": ".toList ++ (BuildError.preProcessor message).what)
  | error => error

section Loop

variable (env : Environment) (nested : List (List Char) → List IncludeFile → Tables → Nested (List (List Char) × Tables))

/-- The header recorded for a line, read into the tables by a nested call. -/
def processHeader (header : IncludeFile) (tables : Tables) : Nested Tables :=
  ExceptT.adapt (headerError header.file_name) do
    let (file, definition, headers) ←
      Nested.ofExcept (headProcess env.files env.include_path header.content tables.definition [])
    let (_, tables) ← nested file headers { tables with definition }
    return tables

/-- The header for a line, if one is recorded. -/
def processHeaders (headers : List IncludeFile) (line_number : ℕ) (tables : Tables) : Nested Tables :=
  match headerInThisLine headers line_number with
  | some header => processHeader env nested header tables
  | none => return tables

/-- The loop over the declarative directives, from a line number on. It ends at the first line that is none. -/
def declareLines (headers : List IncludeFile) :
    ℕ → List (List Char) → Tables → Nested (List (List Char) × Tables)
  | _, [], tables => return ([], tables)
  | line_number, line :: rest, tables => do
    let tables ← processHeaders env nested headers line_number tables
    let line := truncateAfterSemicolonOrHash line
    if isLineEmpty line then
      let (rest, tables) ← declareLines headers (line_number + 1) rest tables
      return (line :: rest, tables)
    else
      match declare line tables with
      | some tables =>
        let (rest, tables) ← declareLines headers (line_number + 1) rest tables
        return ([] :: rest, tables)
      | none => return (line :: rest, tables)

end Loop

/-- Comments go, then tabs become spaces. -/
def cleanText (line : List Char) : List Char := replaceAll (truncateAfterSemicolonOrHash line) "\t".toList "    ".toList

/-- `PreProcess`. -/
def preProcess (env : Environment) : ℕ → List (List Char) → List IncludeFile → Tables → Nested (List (List Char) × Tables)
  | 0, _, _, _ => ExceptT.mk none
  | fuel + 1, file, headers, tables => do
    let (file, markers) ← Nested.ofExcept (lineMarkerRegister env.reading (file.map cleanText))
    let tables := { tables with defined_line_marker := markers.foldl declareMarker tables.defined_line_marker }
    let (file, tables) ← declareLines env (preProcess env fuel) headers 1 file tables
    let file ← Nested.ofExcept (file.mapM (sedEqu env tables.equ_replacement))
    return (file, tables)

end Sysdarft.Coding
