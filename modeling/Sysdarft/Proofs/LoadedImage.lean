import Sysdarft.Proofs.DecoderFormat
import Sysdarft.Proofs.EncodeLine
import Sysdarft.Proofs.SourceInstructions

/-! # Running a linked file

A linked file that lies in memory at its origin is run line by line: when the instruction pointer is the address of an
instruction line, the machine fetches the instruction the line describes, with the address of the label for the operand
that names it, and the instruction pointer moves on to the next chunk.
-/

namespace Sysdarft.Coding

open Effects Format

/-! ## Memory -/

/-- The bytes lie in memory, beginning at the origin from the code base. -/
structure Loaded (machine : Machine) (org : ℕ) (image : List Byte) : Prop where
  inside : machine.registers.CodeBase.toNat + org + image.length ≤ machine.memory.total
  content : FlatMemory.read machine.memory.peek (machine.registers.CodeBase.toNat + org) image.length = image

section Memory

variable {machine other : Machine} {org : ℕ} {front back : List Byte}

/-- Only the code base and memory decide. -/
theorem Loaded.of_same {image : List Byte} (loaded : Loaded machine org image)
    (base : other.registers.CodeBase = machine.registers.CodeBase)
    (memory : other.memory = machine.memory) : Loaded other org image := by
  refine ⟨?_, ?_⟩
  · rw [base, memory]
    exact loaded.inside
  · rw [base, memory]
    exact loaded.content

/-- The code at a place of the file. -/
theorem Loaded.code (loaded : Loaded machine org (front ++ back))
    (points : machine.registers.InstructionPointer = BitVec.ofNat 64 (org + front.length)) : machine.Code back := by
  obtain ⟨inside, content⟩ := loaded
  have bound := machine.memory.addressable
  rw [List.length_append] at inside content
  have address : machine.codeAddress = machine.registers.CodeBase.toNat + org + front.length := by
    rw [GuestMemory.total] at inside
    rw [Machine.codeAddress, points, BitVec.toNat_add, BitVec.toNat_ofNat]
    omega
  rw [FlatMemory.read_add] at content
  refine ⟨by rw [address]; omega, ?_⟩
  rw [address]
  exact (List.append_inj content (FlatMemory.length_read ..)).2

end Memory

/-! ## Places -/

/-- The machine is about to run a chunk of the file. -/
structure AtChunk (org : ℕ) (code : List (List Byte)) (machine : Machine) (chunk : ℕ) : Prop where
  loaded : Loaded machine org code.flatten
  points : machine.registers.InstructionPointer = BitVec.ofNat 64 (org + codeSize (code.take chunk))

/-- What `fetch` makes of the machine. -/
def fetched (machine : Machine) (count : ℕ) : Machine :=
  { machine.advance count with
    ip_before_pop := machine.registers.InstructionPointer
    current_routine_pop_len := (machine.advance count).registers.InstructionPointer - machine.registers.InstructionPointer
    Int3DebugInterrupt := false }

section Places

variable {machine : Machine} {org chunk : ℕ} {code : List (List Byte)} {instruction : Instruction}

theorem fetch_fetched {rest : List Byte} (here : machine.Code (instruction.bytes ++ rest)) :
    fetch machine = .ok (instruction.active machine.registers) (fetched machine instruction.bytes.length) := by
  have moved : Machine.Code { machine with ip_before_pop := machine.registers.InstructionPointer }
    (instruction.bytes ++ rest) := here
  simp only [fetch, bind_apply, modify_apply, popInstruction_bytes instruction moved, pure_apply]
  rfl

/-- The instruction of a chunk is fetched, and the next chunk is behind it. -/
theorem AtChunk.fetch (at_ : AtChunk org code machine chunk) (here : code[chunk]? = some instruction.bytes) :
    fetch machine = .ok (instruction.active machine.registers) (fetched machine instruction.bytes.length) ∧
      AtChunk org code (fetched machine instruction.bytes.length) (chunk + 1) := by
  obtain ⟨place, same⟩ := List.getElem?_eq_some_iff.mp here
  have split : code.flatten = (code.take chunk).flatten ++ (instruction.bytes ++ (code.drop (chunk + 1)).flatten) := by
    conv_lhs => rw [← List.take_append_drop chunk code]
    rw [List.flatten_append, List.drop_eq_getElem_cons place, List.flatten_cons, same]
  have length : codeSize (code.take chunk) = (code.take chunk).flatten.length := List.length_flatten.symm
  have loaded := at_.loaded
  rw [split] at loaded
  have points := at_.points
  rw [length] at points
  refine ⟨fetch_fetched (loaded.code points), at_.loaded.of_same rfl rfl, ?_⟩
  have next : codeSize (code.take (chunk + 1)) = codeSize (code.take chunk) + instruction.bytes.length := by
    rw [List.take_add_one, here, codeSize_append]
    rfl
  change machine.registers.InstructionPointer + BitVec.ofNat 64 instruction.bytes.length = _
  rw [at_.points, next, ← Nat.add_assoc, BitVec.ofNat_add _ instruction.bytes.length]

end Places

/-! ## The meaning of a line -/

/-- The instruction is what the line says and is encoded to. -/
structure Describes (bc : Calculator) (line : List Char) (instruction : Instruction) : Prop where
  parts : ∃ parts, lineParts line = some parts ∧ instruction.mnemonic = parts.mnemonic ∧ instruction.width = parts.width ∧
    List.Forall₂ (fun text target => DescribesTarget bc (normalize text) target) parts.operands instruction.operands
  encoded : encodeInstruction bc line = .ok instruction.bytes

/-- What a line of a build means: the instruction it says, or with a label the one with the address of the label line. -/
inductive Meaning (bc : Calculator) (org : ℕ) (files : List FileAttr) (markers : List LineMarker) (text : List Char) :
    Instruction → Prop where
  | plain {instruction : Instruction} (unlabelled : labelIn markers text = none)
    (describes : Describes bc text instruction) :
      Meaning bc org files markers text instruction
  | labelled {instruction : Instruction} {name : List Char} {chunks : List (List Byte)} {address : ℕ}
      (named : labelIn markers text = some name) (label : LabelAt bc org files name chunks address)
      (describes : Describes bc (placeholderLine markers text) instruction) :
      Meaning bc org files markers text (relocate address instruction)

section Lines

variable {env : Environment} {bc : Calculator} {verbose : Bool} {org origin position : ℕ} {files : List FileAttr}
    {objects : List ObjectFile}
  {linked earlier : ObjectFile} {chunks : List (List Byte)} {line text : List Char} {table : SymbolTable}

/-- An instruction line means something. -/
theorem Build.meaning (echoes : EchoesNumerals bc) (build : Build env bc verbose org files objects linked)
    (at_ : LineAt bc org files line earlier chunks origin position) (here : IsInstructionLine bc origin position line text)
    (exist : LineRegistersExist (placeholderLine earlier.symbol_table text)) :
    ∃ instruction, Meaning bc org files earlier.symbol_table text instruction := by
  obtain ⟨table, laid⟩ := build.laid
  obtain ⟨behind, assembled⟩ := build.assembled
  obtain ⟨code, encoded, -, becomes⟩ :=
    linked_instruction (fun file member => (build.preprocessed file member).undefined) assembled laid at_ here
  obtain ⟨parts, found, instruction, entries, mnemonic, width, operands, each, -, rfl⟩ :=
    encodeInstruction_describes echoes encoded exist
  have describes : Describes bc (placeholderLine earlier.symbol_table text) instruction := by
    refine ⟨⟨parts, found, mnemonic, width, ?_⟩, encoded⟩
    rw [operands, List.forall₂_map_right_iff]
    exact each.imp fun _ _ encodes => encodes.describes
  cases named : labelIn earlier.symbol_table text with
  | none =>
    have unlabelled : markerInLine earlier.symbol_table text = none := Option.map_eq_none_iff.mp named
    rw [placeholderLine, unlabelled] at describes
    exact ⟨_, .plain named describes⟩
  | some name =>
    have defined := (becomes instruction rfl).1 name named
    obtain ⟨chunks, label⟩ := (laid.symbols name (symbolAddress table name)).mp ⟨defined, rfl⟩
    exact ⟨_, .labelled named label describes⟩

/-- The chunk of a line is what the line means. -/
theorem Build.chunk (build : Build env bc verbose org files objects linked) {instruction : Instruction}
    (at_ : LineAt bc org files line earlier chunks origin position) (here : IsInstructionLine bc origin position line text)
    (meaning : Meaning bc org files earlier.symbol_table text instruction) :
    linked.code[chunks.length]? = some instruction.bytes ∧ position =
    (org + codeSize (linked.code.take chunks.length)) % 2 ^ 64 := by
  obtain ⟨table, laid⟩ := build.laid
  obtain ⟨behind, assembled⟩ := build.assembled
  obtain ⟨code, encoded, place, becomes⟩ :=
    linked_instruction (fun file member => (build.preprocessed file member).undefined) assembled laid at_ here
  refine ⟨?_, place⟩
  cases meaning with
  | plain unlabelled describes =>
    have unmarked : markerInLine earlier.symbol_table text = none := Option.map_eq_none_iff.mp unlabelled
    rw [placeholderLine, unmarked] at encoded
    have chunk := (becomes instruction (Except.ok.inj (encoded.symm.trans describes.encoded))).2
    rw [unlabelled] at chunk
    exact chunk
  | @labelled instruction name chunks address named label describes =>
    have chunk := (becomes instruction (Except.ok.inj (encoded.symm.trans describes.encoded))).2
    rw [named, resolve, ((laid.symbols name address).mpr ⟨chunks, label⟩).2] at chunk
    exact chunk

/-- The machine fetches what the line means, and goes on behind it. -/
theorem fetch_line (echoes : EchoesNumerals bc) (build : Build env bc verbose org files objects linked)
    (at_ : LineAt bc org files line earlier chunks origin position) (here : IsInstructionLine bc origin position line text)
    (exist : LineRegistersExist (placeholderLine earlier.symbol_table text)) :
    ∃ instruction, Meaning bc org files earlier.symbol_table text instruction ∧
      ∀ machine, Loaded machine org linked.code.flatten → machine.registers.InstructionPointer = BitVec.ofNat 64 position →
        fetch machine = .ok (instruction.active machine.registers) (fetched machine instruction.bytes.length) ∧
          AtChunk org linked.code (fetched machine instruction.bytes.length) (chunks.length + 1) := by
  obtain ⟨instruction, meaning⟩ := build.meaning echoes at_ here exist
  obtain ⟨chunk, rfl⟩ := build.chunk at_ here meaning
  refine ⟨instruction, meaning, fun machine loaded points => AtChunk.fetch ⟨loaded, ?_⟩ chunk⟩
  rw [points]
  exact BitVec.eq_of_toNat_eq (by rw [BitVec.toNat_ofNat, BitVec.toNat_ofNat, Nat.mod_mod])

end Lines

/-! ## A program that spins -/

/-- The operands of a branch to a label, with the placeholder for the label. -/
def branchOperands : List (List Char) := ["%CB".toList, "$64(0XFFFFFFFFFFFFFFFF)".toList]

/-- The registers of a branch to a label exist. -/
theorem branch_registersExist {line : List Char} {mnemonic : Mnemonic}
    (parts : lineParts line = some ⟨mnemonic, none, branchOperands⟩) :
    LineRegistersExist line := by
  intro found same text member parsed parse
  rw [parts] at same
  cases same
  rcases List.mem_pair.mp member with rfl | rfl
  · have register : Coding.parse "%CB".toList = .ok (.register "%CB".toList) := by decide +kernel
    rw [register] at parse
    cases parse
    intro name inside
    obtain rfl := List.mem_singleton.mp inside
    exact ⟨.special .codeBase, rfl⟩
  · have constant : Coding.parse "$64(0XFFFFFFFFFFFFFFFF)".toList =
      .ok (.constant "64".toList "0XFFFFFFFFFFFFFFFF".toList) := by decide +kernel
    rw [constant] at parse
    cases parse
    exact fun name inside => absurd inside List.not_mem_nil

def spinLines : List (List Char) := ["foo:".toList, "NOP".toList, "JMP <%CB>, <foo>".toList]

/-- The lines, with the label that the preprocessor declares. -/
def spinFile : FileAttr := ⟨"spin".toList, spinLines, [⟨"foo".toList, 0, false, false, []⟩], .empty, []⟩

def spinObject : ObjectFile where
  code := [[0x00], [0x30, 0x01, 0x64, 0xA2] ++ tmpAddressHex]
  symbol_table := [⟨"foo".toList, BIOS_START, true, true, [1]⟩]
  data_expression_identifiers := []

def spinLinked : ObjectFile where
  code := [[0x00], [0x30, 0x01, 0x64, 0xA2] ++ encodeConstantFromUint64 BIOS_START]
  symbol_table := [⟨"foo".toList, BIOS_START, false, false, []⟩]
  data_expression_identifiers := []

theorem build_spin : Build bareEnvironment numeralCalculator false BIOS_START [spinFile] [spinObject] spinLinked where
  preprocessed := List.forall_mem_singleton.mpr
    ⟨1, spinLines, [], ⟨[], BIOS_START, .empty, .empty⟩,
      ⟨[⟨"foo".toList, 0, false, false, []⟩], BIOS_START, .empty, .empty⟩, rfl, rfl, rfl⟩
  assembled := ⟨BIOS_START + 15, rfl⟩
  link := rfl

/-- The jump is fetched with the address of the label. -/
theorem fetch_line_spin :
    ∃ instruction, Meaning numeralCalculator BIOS_START [spinFile] [⟨"foo".toList, BIOS_START, true, false, []⟩]
        "JMP <%CB>, <foo>".toList instruction ∧
      ∀ machine, Loaded machine BIOS_START spinLinked.code.flatten →
        machine.registers.InstructionPointer = BitVec.ofNat 64 (BIOS_START + 1) →
          fetch machine = .ok (instruction.active machine.registers) (fetched machine instruction.bytes.length) ∧
            AtChunk BIOS_START spinLinked.code (fetched machine instruction.bytes.length) 2 :=
  @fetch_line bareEnvironment numeralCalculator false BIOS_START BIOS_START (BIOS_START + 1) [spinFile]
    [spinObject] spinLinked
    ⟨[[0x00]], [⟨"foo".toList, BIOS_START, true, false, []⟩], []⟩ [[0x00]]
    "JMP <%CB>, <foo>".toList "JMP <%CB>, <foo>".toList
    numeralCalculator_echoes build_spin
    ⟨[], spinFile, [], ["foo:".toList, "NOP".toList], [], [], rfl, rfl, rfl, rfl, rfl⟩ ⟨rfl, rfl, rfl, rfl, rfl, rfl⟩
    (@branch_registersExist _ .jmp rfl)

end Sysdarft.Coding
