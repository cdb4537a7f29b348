import Sysdarft.Coding.Linker

/-! # Executable files

`LinkedWrite` puts a magic number and the symbol table in front of the code. `disassemble` pops both off again and
keeps the symbols in a map from addresses to names. Files open, and are read whole.
-/

namespace Sysdarft.Coding

inductive CompilationMode where
  | bin | exe | sys
deriving DecidableEq, Repr

def EXE_MAGIC : ℕ := 0x00455845

def SYS_MAGIC : ℕ := 0x00535953

/-! ## Writing -/

/-- The characters of a `std::string` as they lie in memory. -/
def stringBytes (text : List Char) : List Byte := text.map fun c => BitVec.ofNat 8 c.toNat

/-- One entry: the length of the name in 16 bits, the name, the address. -/
def symbolTableEntry (symbol : LineMarker) : List Byte :=
  LittleEndian.bytes 2 symbol.line_marker_name.length ++ (stringBytes symbol.line_marker_name ++
    LittleEndian.bytes 8 symbol.marker_position)

/-- `generate_symbol_table`. -/
def generateSymbolTable (obj : ObjectFile) : List Byte :=
  LittleEndian.bytes 8 obj.symbol_table.length ++ obj.symbol_table.flatMap symbolTableEntry

/-- `LinkedWrite`: the content of the file. -/
def linkedWrite (linked_object : ObjectFile) (compile_mode : CompilationMode) : List Byte :=
  match compile_mode with
  | .bin => linked_object.code.flatten
  | .exe => LittleEndian.bytes 4 EXE_MAGIC ++ (generateSymbolTable linked_object ++ linked_object.code.flatten)
  | .sys => LittleEndian.bytes 4 SYS_MAGIC ++ (generateSymbolTable linked_object ++ linked_object.code.flatten)

/-! ## Reading -/

/-- `SysdarftDisassemblerError`, with its message. -/
abbrev DisassemblerError := List Char

/-- `pop_num_from_vec`, for a number of so many bytes. -/
def popNumFromVec (size : ℕ) (vec : List Byte) : Except DisassemblerError (ℕ × List Byte) :=
  if vec.length < size then .error "Invalid vector size".toList
  else .ok (LittleEndian.value (vec.take size), vec.drop size)

/-- `pop_str_from_vec`. -/
def popStrFromVec (vec : List Byte) : Except DisassemblerError (List Char × List Byte) := do
  let (len, vec) ← popNumFromVec 2 vec
  if vec.length < len then throw "Invalid vector size".toList
  else return ((vec.take len).map fun byte => Char.ofNat byte.toNat, vec.drop len)

/-- The loop over the entries. -/
def popEntries : ℕ → OrderedMap ℕ (List Char) → List Byte → Except DisassemblerError (OrderedMap ℕ (List Char) × List Byte)
  | 0, symbol_table, assembled_code => .ok (symbol_table, assembled_code)
  | entry_size + 1, symbol_table, assembled_code => do
    let (entry, assembled_code) ← popStrFromVec assembled_code
    let (value, assembled_code) ← popNumFromVec 8 assembled_code
    popEntries entry_size (symbol_table.emplace value entry) assembled_code

/-- The mode of a file: what it begins with, else what was asked for. -/
def detectMode (assembled_code : List Byte) (compile_mode : CompilationMode) : CompilationMode :=
  let compile_mode := if (stringBytes "EXE".toList).isPrefixOf assembled_code then .exe else compile_mode
  if (stringBytes "SYS".toList).isPrefixOf assembled_code then .sys else compile_mode

/-- `disassemble` up to the call of `disassemble_code`: the symbols, and the code that is left. -/
def popHeader (assembled_code : List Byte) (compile_mode : CompilationMode) :
    Except DisassemblerError (OrderedMap ℕ (List Char) × List Byte) :=
  if detectMode assembled_code compile_mode = .bin then .ok (.empty, assembled_code)
  else do
    let (magic, assembled_code) ← popNumFromVec 4 assembled_code
    if magic ≠ EXE_MAGIC ∧ magic ≠ SYS_MAGIC then throw "Format not recognized".toList
    else
      let (entry_size, assembled_code) ← popNumFromVec 8 assembled_code
      popEntries entry_size .empty assembled_code

end Sysdarft.Coding
