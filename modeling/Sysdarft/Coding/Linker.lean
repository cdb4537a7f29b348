import Sysdarft.Coding.Assembler
import Sysdarft.Library.OrderedMap

/-! # The linker

`SysdarftLink` collects the symbols of all objects in one table, puts the addresses where the assembler left
placeholders, and evaluates the data expressions with the names of symbols replaced by addresses.
-/

namespace Sysdarft.Coding

/-- `encode_constant_from_uint64_t`. -/
def encodeConstantFromUint64 (val : ℕ) : List Byte := CONSTANT_CODE :: Width.w64.bcd :: LittleEndian.bytes 8 val

/-- `tmp_address_hex`: what the placeholder operand is encoded to. -/
def tmpAddressHex : List Byte := [0x02, 0x64, 0xFF, 0xFF, 0xFF, 0xFF, 0xFF, 0xFF, 0xFF, 0xFF]

/-- Count from here on; `skip` bytes still belong to the occurrence counted last. -/
def countFrom (sequence : List Byte) : ℕ → List Byte → ℕ
  | _, [] => 0
  | skip + 1, _ :: rest => countFrom sequence skip rest
  | 0, byte :: rest =>
    if sequence.isPrefixOf (byte :: rest) then countFrom sequence (sequence.length - 1) rest + 1
    else countFrom sequence 0 rest

/-- `countSequence`. -/
def countSequence (data sequence : List Byte) : ℕ :=
  if sequence = [] ∨ data.length < sequence.length then 0 else countFrom sequence 0 data

/-- `replaceSequence`: the first occurrence. -/
def replaceSequence (target replacement : List Byte) : List Byte → List Byte
  | [] => []
  | byte :: rest =>
    if target.isPrefixOf (byte :: rest) then replacement ++ (byte :: rest).drop target.length
    else byte :: replaceSequence target replacement rest

/-! ## Symbols -/

/-- `symbol_t`. -/
structure Symbol where
  address : ℕ
  referenced : Bool
  defined : Bool
deriving DecidableEq

/-- What `operator[]` makes of a new key. -/
def Symbol.absent : Symbol := ⟨0, false, false⟩

/-- `unified_symbol_table`. -/
abbrev SymbolTable := OrderedMap (List Char) Symbol

def isDefined (unified_symbol_table : SymbolTable) (name : List Char) : Bool :=
  ((unified_symbol_table.find? name).map Symbol.defined).getD false

/-- One symbol of an object is entered. -/
def registerSymbol (unified_symbol_table : SymbolTable) (symbol : LineMarker) : Except BuildError SymbolTable := do
  let name := symbol.line_marker_name
  let unified_symbol_table ←
    if symbol.is_defined then
      if isDefined unified_symbol_table name then throw (.linker ("Multiple definitions of ".toList ++ name))
      else
        let ref := (unified_symbol_table.find? name).getD .absent
        pure (unified_symbol_table.assign name { ref with address := symbol.marker_position, defined := true })
    else pure unified_symbol_table
  if symbol.referenced then
    let ref := (unified_symbol_table.find? name).getD .absent
    return unified_symbol_table.assign name { ref with referenced := true }
  else return unified_symbol_table

/-- All symbols of all objects. -/
def registerSymbols (objects : List ObjectFile) : Except BuildError SymbolTable :=
  (objects.flatMap ObjectFile.symbol_table).foldlM registerSymbol .empty

def undefinedReference (name : List Char) : BuildError := .linker ("Undefined reference to ".toList ++ name)

/-- The address of a chunk's placeholder is put in; there has to be exactly one. -/
def linkInstruction (name : List Char) (replacement : List Byte) (code : List (List Byte)) (each_instruction : ℕ) :
    Except BuildError (List (List Byte)) :=
  let chunk := code.getD each_instruction []
  if countSequence chunk tmpAddressHex ≠ 1 then
    .error (.linker ("Overlapping or non-exist code references of the ".toList ++ name ++
      (",\npossibly due to multiple noise data 0xFFFFFFFFFFFFFFFF within code disrupting normal " ++
        "sequence identification.").toList))
  else .ok (code.set each_instruction (replaceSequence tmpAddressHex replacement chunk))

/-- One symbol of an object is linked. -/
def linkSymbol (unified_symbol_table : SymbolTable) (code : List (List Byte)) (symbol : LineMarker) :
    Except BuildError (List (List Byte)) :=
  match unified_symbol_table.find? symbol.line_marker_name with
  | none => .error (undefinedReference symbol.line_marker_name)
  | some ref =>
    if ref.defined then
      symbol.loc_it_appeared_in_cur_blk.foldlM
        (linkInstruction symbol.line_marker_name (encodeConstantFromUint64 ref.address)) code
    else .error (undefinedReference symbol.line_marker_name)

/-! ## Data -/

/-- The names of the object's symbols in an expression are replaced by addresses, one after the other. -/
def resolveSymbols (unified_symbol_table : SymbolTable) (symbol_table : List LineMarker) (data_string : List Char) :
    Except BuildError (List Char) :=
  symbol_table.foldlM (fun expression marker =>
    match unified_symbol_table.find? marker.line_marker_name with
    | some ref => .ok (replaceAll expression marker.line_marker_name (Numerals.decimal ref.address))
    | none => .error (undefinedReference marker.line_marker_name)) data_string

/-- The bytes of a number that the calculator printed. -/
def dataBytes (data_byte_count : ℕ) (processed_expression : List Char) : List Byte :=
  let data := Numerals.strtoll processed_expression
  let compliment := Numerals.maxU64 >>> (64 - data_byte_count * 8)
  LittleEndian.bytes data_byte_count (data &&& compliment)

/-- One data expression of an object is evaluated. -/
def linkData (bc : Calculator) (unified_symbol_table : SymbolTable) (symbol_table : List LineMarker)
    (code : List (List Byte)) (data : DataExpression) : Except BuildError (List (List Byte)) := do
  let expression ← resolveSymbols unified_symbol_table symbol_table data.data_string
  let processed_expression ← coded (executeBc bc (processBase16 expression))
  return code.set data.data_appearance (dataBytes data.data_byte_count processed_expression)

/-! ## Objects -/

/-- The code of one object. -/
def linkObject (bc : Calculator) (unified_symbol_table : SymbolTable) (object : ObjectFile) :
    Except BuildError (List (List Byte)) := do
  let code ← object.symbol_table.foldlM (linkSymbol unified_symbol_table) object.code
  object.data_expression_identifiers.foldlM (linkData bc unified_symbol_table object.symbol_table) code

/-- `SysdarftLink`. The symbols that stay are the referenced ones, or all of them when the option `verbose` is set. -/
def sysdarftLink (bc : Calculator) (verbose : Bool) (objects : List ObjectFile) : Except BuildError ObjectFile := do
  let unified_symbol_table ← registerSymbols objects
  let code ← objects.mapM (linkObject bc unified_symbol_table)
  let symbols := unified_symbol_table.entries.filter fun entry => verbose || entry.2.referenced
  return ⟨code.flatten, symbols.map fun entry => ⟨entry.1, entry.2.address, false, false, []⟩, []⟩

end Sysdarft.Coding
