import Sysdarft.Coding.EncodeInstruction

/-! # The assembler

`SysdarftAssemble` walks over the preprocessed lines of a file. Every line that emits something adds a chunk of
code; labels get the number of bytes emitted so far, and operands that name a label are encoded as a placeholder
whose chunk is recorded for the linker. Addresses are 64-bit words.
-/

namespace Sysdarft.Coding

/-- The errors that stop a build, with the message given to the constructor. -/
inductive BuildError where
  | preProcessor (message : List Char)
  | assembler (message : List Char)
  | linker (message : List Char)
  | coding (error : CodingError)
  | runtime (message : List Char)
  /-- `std::regex_error`. -/
  | regex
deriving DecidableEq, Repr

/-- `what()` of an error. -/
def BuildError.what : BuildError → List Char
  | preProcessor message => "Error encountered in preprocessor:\n >> ".toList ++ message
  | assembler message => "Assembler cannot parse the code expression:\n >> ".toList ++ message
  | linker message => "Error encountered when linking:\n >> ".toList ++ message
  | coding error => error.what
  | runtime message => message
  | regex => "regex_error".toList

/-- `line_marker_t`. -/
structure LineMarker where
  line_marker_name : List Char
  marker_position : ℕ
  is_defined : Bool
  referenced : Bool
  loc_it_appeared_in_cur_blk : List ℕ
deriving DecidableEq, Repr

/-- `data_expression_identifier`. -/
structure DataExpression where
  data_appearance : ℕ
  data_byte_count : ℕ
  data_string : List Char
deriving DecidableEq, Repr

/-- `object_t`. -/
structure ObjectFile where
  code : List (List Byte)
  symbol_table : List LineMarker
  data_expression_identifiers : List DataExpression
deriving DecidableEq, Repr

/-! ## Text helpers -/

/-- `replace_all`. -/
def replaceAll (original target replacement : List Char) : List Char :=
  if target = [] then original
  else
    let original := if target = [' '] ∧ replacement = [] then original.filter (· != ' ') else original
    Text.replaceAll target replacement original

/-- The closure `is_line_empty`. -/
def isLineEmpty (line : List Char) : Bool := (replaceAll line [' '] []).isEmpty

/-- `code_size_now`. -/
def codeSizeNow (code : List (List Byte)) : ℕ := (code.map List.length).sum % 2 ^ 64

/-- `unescapeString`. -/
def unescapeString : List Char → List Char
  | '\\' :: next :: rest =>
    (if next = 'n' then ['\n']
      else if next = 't' then ['\t']
      else if next = 'r' then ['\r']
      else if next = '\\' ∨ next = '\'' ∨ next = '"' then [next]
      else ['\\', next]) ++ unescapeString rest
  | c :: rest => c :: unescapeString rest
  | [] => []

/-! ## Patterns -/

section Patterns

open Regex

/-- `'([^']*)'`. -/
def asciiValuePattern : Regex := seq (chr '\'') (seq (group 1 (star (sat (· != '\'')))) (chr '\''))

/-- `\s*\.resvb\s+<(.*)>\s*`, in either case. -/
def resvbPattern : Regex :=
  seq (star space) (seq (litNoCase ".resvb".toList) (seq (plus space) (seq (chr '<') (seq (group 1 (star dot))
    (seq (chr '>') (star space))))))

/-- `\s*\.string\s+<\s*\"(.*)\"\s*>\s*`, in either case. -/
def stringPattern : Regex :=
  seq (star space) (seq (litNoCase ".string".toList) (seq (plus space) (seq (chr '<') (seq (star space)
    (seq (chr '"') (seq (group 1 (star dot)) (seq (chr '"') (seq (star space) (seq (chr '>') (star space))))))))))

/-- `\s*\.(8|16|32|64)bit_data\s+<(.*)>\s*`, in either case. -/
def dataPattern : Regex :=
  seq (star space) (seq (chr '.') (seq (group 1 widthPattern) (seq (litNoCase "bit_data".toList) (seq (plus space)
    (seq (chr '<') (seq (group 2 (star dot)) (seq (chr '>') (star space))))))))

/-- The characters of a label: `[A-Za-z_.]` first, `[A-Za-z0-9_.]` after it. -/
def isLabelStart (c : Char) : Bool := decide ('A' ≤ c ∧ c ≤ 'Z') || decide ('a' ≤ c ∧ c ≤ 'z') || c == '_' || c == '.'

def isLabelChar (c : Char) : Bool := isLabelStart c || Numerals.isDecimal c

/-- `[A-Za-z_.][A-Za-z0-9_.]*`. -/
def labelWord : Regex := seq (sat isLabelStart) (star (sat isLabelChar))

/-- `^\s*([A-Za-z_.][A-Za-z0-9_.]*)\s*:\s*$`. -/
def lineMarkPattern : Regex :=
  seq bol (seq (star space) (seq (group 1 labelWord) (seq (star space) (seq (chr ':') (seq (star space) eol)))))

/-- A label name as a pattern of its own: the dots in it stand for any character. -/
def namePattern : List Char → Regex
  | [] => eps
  | c :: rest => seq (if c = '.' then dot else chr c) (namePattern rest)

/-- `(.*)(<\s*name\s*>)(.*)`. -/
def markerPattern (name : List Char) : Regex :=
  seq (group 1 (star dot))
    (seq (group 2 (seq (chr '<') (seq (star space) (seq (namePattern name) (seq (star space) (chr '>'))))))
    (group 3 (star dot)))

end Patterns

/-! ## Pieces of a line -/

/-- `std::to_string(static_cast<int>(c))`, where a `char` is signed. -/
def asciiNumeral (c : Char) : List Char :=
  if c.toNat < 128 then Numerals.decimal c.toNat else '-' :: Numerals.decimal (256 - c.toNat)

/-- `process_ascii_value`: all quoted characters are collected before the first is replaced. -/
def processAsciiValue (input : List Char) : Except BuildError (List Char) := do
  let replacements ← (Regex.iterate asciiValuePattern input).mapM fun found =>
    match found.captures.get 1 with
    | [c] => .ok (found.text, asciiNumeral c)
    | _ => .error (BuildError.runtime ("Error encountered while parsing the ASCII expression: ".toList ++ found.text))
  return replacements.foldl (fun text rep => replaceAll text rep.1 rep.2) input

/-- Calculator errors of the coding functions, passed on. -/
def coded {α : Type} (result : Except CodingError α) : Except BuildError α := result.mapError .coding

/-- `process_resvb`: the bytes of a `.resvb` line; a negative count reserves nothing. -/
def processResvb (bc : Calculator) (input : List Char) : Except BuildError (Option (List Byte)) :=
  match Regex.search resvbPattern input with
  | none => .ok none
  | some found => do
    let processed_expression ← coded (executeBc bc (processBase16 (found.captures.get 1)))
    let count := Numerals.strtoll processed_expression
    return some (List.replicate (if count < 2 ^ 63 then count else 0) 0)

/-- The text between the first and the last quotation mark. -/
def betweenQuotes (input : List Char) : Option (List Char) :=
  let behind := (input.dropWhile (· != '"')).drop 1
  if behind.contains '"' then some ((behind.reverse.dropWhile (· != '"')).drop 1).reverse else none

/-- `process_string`: the bytes of a `.string` line. -/
def processString (input : List Char) : Except BuildError (Option (List Byte)) :=
  match Regex.search stringPattern input with
  | none => .ok none
  | some _ =>
    let input := unescapeString input
    match betweenQuotes input with
    | some text => .ok (some (text.map fun c => BitVec.ofNat 8 c.toNat))
    | none => .error (.assembler ("Error encountered while parsing string: ".toList ++ input))

/-- `process_data`: the width in bytes and the expression of a `.Nbit_data` line. -/
def processData (input : List Char) : Option (ℕ × List Char) :=
  (Regex.search dataPattern input).map fun found =>
    (Numerals.digitsValue 10 (found.captures.get 1) / 8, found.captures.get 2)

/-! ## Labels -/

/-- `emplace_marker`: a label gets its address. -/
def emplaceMarker (marker : List Char) (offset : ℕ) : List LineMarker → Except BuildError (List LineMarker)
  | [] => .ok [⟨marker, offset, true, false, []⟩]
  | defined_marker :: rest =>
    if defined_marker.line_marker_name = marker then
      if defined_marker.is_defined then .error (.assembler ("Multiple definition of ".toList ++ marker))
      else .ok ({ defined_marker with is_defined := true, marker_position := offset } :: rest)
    else (emplaceMarker marker offset rest).map (defined_marker :: ·)

/-- `add_marker_reference`: a label is used in a chunk. -/
def addMarkerReference (marker : List Char) (offset : ℕ) : List LineMarker → List LineMarker
  | [] => [⟨marker, 0, false, true, [offset]⟩]
  | defined_marker :: rest =>
    if defined_marker.line_marker_name = marker then
      { defined_marker with
        loc_it_appeared_in_cur_blk := defined_marker.loc_it_appeared_in_cur_blk ++ [offset], referenced := true } :: rest
    else defined_marker :: addMarkerReference marker offset rest

/-- The operand that stands for a label until the linker knows its address. -/
def placeholder : List Char := "<$64(0xFFFFFFFFFFFFFFFF)>".toList

/-- The first label, in table order, that an operand of the line names, with the text of that operand. -/
def markerInLine (markers : List LineMarker) (line : List Char) : Option (List Char × List Char) :=
  markers.findSome? fun marker => (Regex.search (markerPattern marker.line_marker_name) line).map fun found =>
    (marker.line_marker_name, found.captures.get 2)

/-! ## Lines -/

/-- The local variables of `SysdarftAssemble`, with the empty chunk in front. -/
structure Assembly where
  instruction_buffer_set : List (List Byte)
  data_processors : List DataExpression
  appeared_line_markers : List LineMarker

/-- The number the next chunk has once the empty chunk in front is gone. -/
def Assembly.nextChunk (assembly : Assembly) : ℕ := assembly.instruction_buffer_set.length - 1

def Assembly.emit (assembly : Assembly) (code : List Byte) : Assembly :=
  { assembly with instruction_buffer_set := assembly.instruction_buffer_set ++ [code] }

/-- A line that is neither blank nor a label. -/
def assembleCode (bc : Calculator) (origin : ℕ) (assembly : Assembly) (line : List Char) : Except BuildError Assembly := do
  if let some code ← processString line then return assembly.emit code
  let line := replaceAll line "@@".toList (Numerals.decimal origin)
  let line := replaceAll line "@".toList
    (Numerals.decimal ((codeSizeNow assembly.instruction_buffer_set + origin) % 2 ^ 64))
  if let some code ← processResvb bc line then return assembly.emit code
  let line ← processAsciiValue line
  match processData line with
  | some (data_byte_count, data_string) =>
    let data : DataExpression := ⟨assembly.nextChunk, data_byte_count, data_string⟩
    return { assembly with data_processors := assembly.data_processors ++ [data] }.emit (List.replicate data_byte_count 0)
  | none =>
    match markerInLine assembly.appeared_line_markers line with
    | some (name, operand) =>
      let code ← coded (encodeInstruction bc (replaceAll line operand placeholder))
      let markers := addMarkerReference name assembly.nextChunk assembly.appeared_line_markers
      return { assembly with appeared_line_markers := markers }.emit code
    | none => return assembly.emit (← coded (encodeInstruction bc line))

/-- One turn of the loop over the lines. -/
def assembleLine (bc : Calculator) (origin : ℕ) (assembly : Assembly) (entry : ℕ × List Char) : Except BuildError Assembly :=
  let (line_number, line) := entry
  if isLineEmpty line then .ok assembly
  else
    match Regex.fullMatch lineMarkPattern line with
    | some captures =>
      let offset := (codeSizeNow assembly.instruction_buffer_set + origin) % 2 ^ 64
      (emplaceMarker (captures.get 1) offset assembly.appeared_line_markers).map fun markers =>
        { assembly with appeared_line_markers := markers }
    | none =>
      (assembleCode bc origin assembly line).mapError fun e =>
        .assembler ("Line: ".toList ++ Numerals.decimal line_number ++ ": Error occurred when compiling: ".toList ++ e.what)

/-- Lines with their numbers. -/
def numbered (file : List (List Char)) : List (ℕ × List Char) := (List.range' 1 file.length).zip file

/-- `SysdarftAssemble`: the object, and the origin of the next file. The buffer of a file is empty at the call. -/
def sysdarftAssemble (bc : Calculator) (file : List (List Char)) (origin : ℕ) (appeared_line_markers : List LineMarker) :
    Except BuildError (ObjectFile × ℕ) := do
  let assembly ← (numbered file).foldlM (assembleLine bc origin) ⟨[[]], [], appeared_line_markers⟩
  let code := assembly.instruction_buffer_set.drop 1
  return (⟨code, assembly.appeared_line_markers, assembly.data_processors⟩, (origin + codeSizeNow code) % 2 ^ 64)

end Sysdarft.Coding
