import Sysdarft.Coding.ExecutableFile
import Sysdarft.Coding.PreProcessor

/-! # The compiler driver

`compile_to_binary` reads the source files, preprocesses all of them, assembles them one after the other with the
origin handed on, links the objects, and writes the output file. Files are opened for reading and writing, and the
output file opens.
-/

namespace Sysdarft.Coding

/-- `file_attr_t`, without the code, which is in the object. -/
structure FileAttr where
  filename : List Char
  file : List (List Char)
  symbol_table : List LineMarker
  definition : Definitions
  header_files : List IncludeFile

/-- What the stages make of an exception: the file it is about is named. -/
def fileError (filename : List Char) (err : BuildError) : BuildError :=
  .runtime ("Error when processing file ".toList ++ filename ++ ":\n    ".toList ++ err.what)

/-- One file of `ReadFiles`. -/
def readFile (files : FileSystem) (source_file : List Char) : Except BuildError FileAttr :=
  match files source_file with
  | some file => .ok ⟨source_file, file, [], .empty, []⟩
  | none =>
    .error (.assembler ("Error when processing file ".toList ++ source_file ++ ":\n    ".toList ++
      (BuildError.assembler ("Could not open file ".toList ++ source_file)).what))

/-- `ReadFiles`. -/
def readFiles (files : FileSystem) (source_files : List (List Char)) : Except BuildError (List FileAttr) :=
  source_files.mapM (readFile files)

/-! ## Stages -/

/-- The first stage of one file. -/
def headFile (env : Environment) (file : FileAttr) : Except BuildError FileAttr :=
  ((headProcess env.files env.include_path file.file file.definition file.header_files).map
    fun (lines, definition, header_files) => { file with file := lines, definition, header_files }).mapError
      (fileError file.filename)

/-- The second stage of one file: the origin may be set in it. -/
def preProcessFile (env : Environment) (fuel : ℕ) (org : ℕ) (file : FileAttr) : Nested (FileAttr × ℕ) :=
  ExceptT.adapt (fileError file.filename) do
    let (lines, tables) ← preProcess env fuel file.file file.header_files ⟨file.symbol_table, org, .empty, file.definition⟩
    return ({ file with file := lines, symbol_table := tables.defined_line_marker, definition := tables.definition },
      tables.org)

/-- The second stage of all files, with the origin handed on. -/
def preProcessEach (env : Environment) (fuel : ℕ) : ℕ → List FileAttr → Nested (List FileAttr × ℕ)
  | org, [] => return ([], org)
  | org, file :: rest => do
    let (file, org) ← preProcessFile env fuel org file
    let (rest, org) ← preProcessEach env fuel org rest
    return (file :: rest, org)

/-- `PreProcess` of all files. -/
def preProcessFiles (env : Environment) (fuel : ℕ) (org : ℕ) (files : List FileAttr) : Nested (List FileAttr × ℕ) := do
  let files ← Nested.ofExcept (files.mapM (headFile env))
  preProcessEach env fuel org files

/-- `Assemble` and `Archive`: the objects, and the origin behind the last file. -/
def assembleFiles (bc : Calculator) : ℕ → List FileAttr → Except BuildError (List ObjectFile × ℕ)
  | org, [] => .ok ([], org)
  | org, file :: rest => do
    let (object, org) ← (sysdarftAssemble bc file.file org file.symbol_table).mapError (fileError file.filename)
    let (objects, org) ← assembleFiles bc org rest
    return (object :: objects, org)

/-- `compile_to_binary`: the content of the output file. -/
def compileToBinary (env : Environment) (bc : Calculator) (verbose : Bool) (fuel : ℕ) (source_files : List (List Char))
    (compile_mode : CompilationMode) : Nested (List Byte) := do
  let files ← Nested.ofExcept (readFiles env.files source_files)
  let (files, org) ← preProcessFiles env fuel 0 files
  let (objects, _) ← Nested.ofExcept (assembleFiles bc org files)
  let linked_object ← Nested.ofExcept (sysdarftLink bc verbose objects)
  return linkedWrite linked_object compile_mode

end Sysdarft.Coding
