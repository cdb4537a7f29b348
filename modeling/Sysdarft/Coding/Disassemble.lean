import Sysdarft.Coding.DecodeInstruction
import Sysdarft.Coding.PreProcessor

/-! # The disassembly of an area

`disassemble_code` prints a line for every instruction it decodes. Bytes that are no instruction are collected until
an instruction follows and printed as one dump then; of a run of NOPs only the first three have lines, and a notice
with the length of the run follows it. What is printed is kept here as a list of blocks, each with its text.
-/

namespace Sysdarft.Coding

/-! ## Printing -/

/-- A number through `std::hex << std::setfill('0') << std::setw(width) << std::uppercase`. -/
def hexField (width value : ℕ) : List Char := (Numerals.hexadecimal value).leftpad width '0'

/-- `linear_binary_to_string`. -/
def linearBinaryToString (data : List Byte) : List Char := data.flatMap fun c => hexField 2 c.toNat ++ [' ']

/-- `insert_newlines_every_24`. -/
def insertNewlinesEvery24 (input : List Char) : List Char :=
  if input.length < 24 then input
  else input.zipIdx.flatMap fun (c, i) => if 0 < i ∧ i % 24 = 0 then ['\n', c] else [c]

/-- `print_bin_line`. -/
def printBinLine : List Byte → List Char
  | [] => []
  | [byte] => hexField 2 byte.toNat
  | byte :: next :: data => hexField 2 byte.toNat ++ hexField 2 next.toNat ++ ' ' :: printBinLine data

/-- `print_ascii`. -/
def printAscii (data : List Byte) : List Char :=
  data.map fun c => if 0x20 ≤ c.toNat ∧ c.toNat ≤ 0x7E then Char.ofNat c.toNat else '.'

/-- The lines of a dump, of sixteen bytes each but the last. -/
def dumpLines : Word → List (List Byte) → List Char
  | _, [] => []
  | origin, line :: lines =>
    let characters_per_line := 16 / 2 + 16 * 2
    let characters_printed := line.length / 2 + line.length * 2
    hexField 16 origin.toNat ++ ": ".toList ++ printBinLine line ++
      List.replicate (characters_per_line - characters_printed) ' ' ++ "   ".toList ++ printAscii line ++ ['\n'] ++
      dumpLines (origin + BitVec.ofNat 64 line.length) lines

/-- `xxd_like_dump`. -/
def xxdLikeDump (offset : Word) (data : List Byte) : List Char := dumpLines offset (data.toChunks 16)

/-- The bytes of an instruction and its text: beside them, or at the end of their first line when they take several. -/
def printInstruction (binary : List Byte) (literal : List Char) : List Char :=
  let disassembled_data_literal := linearBinaryToString binary
  if 24 < disassembled_data_literal.length then
    let split := insertNewlinesEvery24 disassembled_data_literal
    replaceAll (split.takeWhile (· != '\n') ++ "    ".toList ++ literal ++ split.dropWhile (· != '\n')) ['\n']
      ('\n' :: List.replicate 18 ' ')
  else disassembled_data_literal ++ List.replicate (28 - disassembled_data_literal.length) ' ' ++ literal

/-- What is written to the stream at a time. -/
inductive Block where
  /-- the name of a symbol in front of its address -/
  | symbol (name : List Char)
  /-- an instruction with its address and its bytes -/
  | line (current_pos : Word) (binary : List Byte) (literal : List Char)
  /-- bytes that are no instruction, with the address of the first -/
  | dump (offset : Word) (data : List Byte)
  /-- a run of NOPs with its first address -/
  | padding (appearances : ℕ) (offset : Word)
deriving DecidableEq, Repr

def Block.text : Block → List Char
  | symbol name => "\n\n<".toList ++ name ++ "> :\n".toList
  | line current_pos binary literal =>
    hexField 16 current_pos.toNat ++ ": ".toList ++ printInstruction binary literal ++ ['\n']
  | dump offset data => xxdLikeDump offset data ++ ['\n']
  | padding appearances offset =>
    "\n ... PADDLING 0x00 APPEARED ".toList ++ Numerals.decimal appearances ++ " TIMES SINCE ".toList ++
      hexField 16 offset.toNat ++ "...\n\n".toList

/-! ## The loop -/

/-- `_8bit_data`: `.8bit_data <(.*)>`. -/
def badDataPattern : Regex :=
  Regex.seq dot (Regex.seq (Regex.lit "8bit_data <".toList) (Regex.seq (Regex.group 1 (Regex.star dot)) (Regex.chr '>')))

/-- Whether what was printed for an item stands for data. -/
def isBadData (literals : List (List Char)) : Bool :=
  literals.isEmpty || literals.any fun line => (Regex.search badDataPattern line).isSome

/-- The local variables of `disassemble_code`. -/
structure Disassembly where
  ret : List Block
  bad_8bit_data : List (List Byte)
  bad_8bit_data_offset : Word
  concussive_nop_appearances : ℕ
  concussive_nop_appearances_offset : Word

def Disassembly.start : Disassembly := ⟨[], [], 0, 0, 0⟩

/-- The closure `clear_concussive_nop_appearances`. -/
def Disassembly.clearNops (state : Disassembly) : Disassembly :=
  { state with
    ret := state.ret ++
      if 3 < state.concussive_nop_appearances then
        [.padding state.concussive_nop_appearances state.concussive_nop_appearances_offset]
      else []
    concussive_nop_appearances := 0
    concussive_nop_appearances_offset := 0 }

/-- What the disassembler is given besides the bytes. -/
structure Area where
  /-- how `std::regex` reads targets with brackets or braces -/
  reading : TargetReading
  /-- `debug::verbose` -/
  verbose : Bool
  org : Word
  symbol_table : OrderedMap ℕ (List Char)

namespace Area

variable (area : Area)

/-- The name of an address, in front of it. -/
def symbolAt (address : Word) : List Block := ((area.symbol_table.find? address.toNat).map Block.symbol).toList

/-- The closure `auto_insert_symbol_in_literal`. -/
def insertSymbols (literal : List Char) : Except BuildError (List Char) :=
  if area.verbose then
    area.symbol_table.entries.foldlM (fun literal symbol =>
      let offset_literal := "0x".toList ++ Numerals.hexadecimal symbol.1
      replaceWholeWord area.reading literal offset_literal (offset_literal ++ " /* ".toList ++ symbol.2 ++ " */".toList))
        literal
  else .ok literal

/-- The data before an instruction is written. -/
def flushBadData (state : Disassembly) : Disassembly :=
  if state.bad_8bit_data = [] then state
  else { state with
    ret := state.ret ++ area.symbolAt state.bad_8bit_data_offset ++
      [.dump state.bad_8bit_data_offset state.bad_8bit_data.flatten]
    bad_8bit_data := []
    bad_8bit_data_offset := 0 }

/-- The count of NOPs at an instruction. -/
def countNop (current_pos : Word) (literals : List (List Char)) (state : Disassembly) : Disassembly :=
  if literals.head? = some "NOP".toList then
    { state with
      concussive_nop_appearances_offset :=
        if state.concussive_nop_appearances = 0 then current_pos else state.concussive_nop_appearances_offset
      concussive_nop_appearances := state.concussive_nop_appearances + 1 }
  else state.clearNops

/-- A turn of the loop, with what `decode_instruction` printed and the bytes it took. -/
def turn (current_pos : Word) (literals : List (List Char)) (binary : List Byte) (state : Disassembly) :
    Except BuildError Disassembly :=
  if isBadData literals then
    .ok { state with
      bad_8bit_data := state.bad_8bit_data ++ [binary]
      bad_8bit_data_offset := if state.bad_8bit_data = [] then current_pos else state.bad_8bit_data_offset }.clearNops
  else
    let state := countNop current_pos literals (area.flushBadData state)
    let state := { state with ret := state.ret ++ area.symbolAt current_pos }
    if state.concussive_nop_appearances ≤ 3 then do
      let literal ← area.insertSymbols (literals.headD [])
      return { state with ret := state.ret ++ [.line current_pos binary literal] }
    else .ok state

/-- The loop; `none` when the fuel runs out before the bytes do. -/
def loop (assembled_code_reference : List Byte) : ℕ → List Byte → Disassembly → Nested Disassembly
  | _, [], state => return state
  | 0, _ :: _, _ => ExceptT.mk none
  | fuel + 1, byte :: code, state => do
    let offset_before := assembled_code_reference.length - (byte :: code).length
    let current_pos := BitVec.ofNat 64 offset_before + area.org
    let (disassembled_code_literals, assembled_code) := decodeInstruction (byte :: code)
    let offset_after := assembled_code_reference.length - assembled_code.length
    let decoded_literal_binary := (assembled_code_reference.drop offset_before).take (offset_after - offset_before)
    let state ← Nested.ofExcept (area.turn current_pos disassembled_code_literals decoded_literal_binary state)
    loop assembled_code_reference fuel assembled_code state

/-- What `disassemble_code` writes. -/
def disassembleBlocks (assembled_code : List Byte) : Nested (List Block) := do
  let state ← area.loop assembled_code assembled_code.length assembled_code .start
  return state.clearNops.ret

/-- `disassemble_code`. -/
def disassembleCode (assembled_code : List Byte) : Nested (List Char) := do
  let blocks ← area.disassembleBlocks assembled_code
  return blocks.flatMap Block.text

end Area

end Sysdarft.Coding
