import Sysdarft.Proofs.ConditionalJumps
import Sysdarft.Proofs.LoadedImage

/-! # Following the lines of the source

A machine at the chunk of a line runs what the line means. A line that leaves `CB:IP` and the file in memory alone is
followed by the next chunk, and a jump to a label by the chunk behind the label line. So a path through the lines of the
source is a run of the machine.
-/

namespace Sysdarft.Coding

open Effects Format

/-! ## Branches -/

/-- The jumps, and the loop. -/
inductive Branch where
  | always
  | conditional (jump : ConditionalJump)

namespace Branch

def mnemonic : Branch → Mnemonic
  | always => .jmp
  | conditional jump => jump.mnemonic

/-- Whether the jump is taken. -/
def taken (branch : Branch) (registers : Registers) : Bool :=
  match branch with
  | always => true
  | conditional jump => jump.documented .heading registers

def counted (branch : Branch) (registers : Registers) : Registers :=
  match branch with
  | always => registers
  | conditional jump => jump.counted registers

/-- The branch has a procedure. -/
def Registered : Branch → Prop
  | always => True
  | conditional jump => jump.Registered

/-- What the procedure does behind the instruction. -/
def follow (branch : Branch) (machine : Machine) (target : Word) : Machine :=
  { machine with
    registers := branch.counted
      (if branch.taken machine.registers then { machine.registers with InstructionPointer := target } else
        machine.registers) }

/-- The instruction that goes to an address in the same code segment. -/
def code (branch : Branch) (address : ℕ) : Instruction where
  mnemonic := branch.mnemonic
  width := none
  operands := [.register (.special .codeBase), .constant (addressConstant address)]
  widthed := by cases branch with
    | always => rfl
    | conditional jump => cases jump <;> rfl
  counted := by cases branch with
    | always => rfl
    | conditional jump => cases jump <;> rfl

variable {branch : Branch} {machine : Machine} {address : ℕ} {host : Host}

theorem counted_base (branch : Branch) (registers : Registers) :
    (branch.counted registers).CodeBase = registers.CodeBase := by
  cases branch with
  | always => rfl
  | conditional jump => cases jump <;> rfl

theorem counted_pointer (branch : Branch) (registers : Registers) :
    (branch.counted registers).InstructionPointer = registers.InstructionPointer := by
  cases branch with
  | always => rfl
  | conditional jump => cases jump <;> rfl

theorem follow_base (target : Word) : (branch.follow machine target).registers.CodeBase = machine.registers.CodeBase := by
  rw [follow, counted_base]
  split_ifs <;> rfl

theorem follow_pointer (target : Word) : (branch.follow machine target).registers.InstructionPointer =
    if branch.taken machine.registers then target else machine.registers.InstructionPointer := by
  rw [follow, counted_pointer]
  split_ifs <;> rfl

theorem dispatch_code (registered : branch.Registered) (registers : Registers) :
    dispatch host ((branch.code address).active registers) machine = .ok ()
    (branch.follow machine (BitVec.ofNat 64 address)) := by
  have base : (Target.operand registers (.register (.special .codeBase))).getVal machine =
    .ok machine.registers.CodeBase machine :=
    getVal_register (.special .codeBase) machine
  have target : (Target.operand registers (.constant (addressConstant address))).getVal machine =
    .ok (BitVec.ofNat 64 address) machine := rfl
  cases branch with
  | always => exact (congrFun (@dispatch_registered host .jmp jmp rfl 0 _) machine).trans (jmp_apply 0 base target)
  | conditional jump => exact dispatch_jump host registered 0 base target

end Branch

/-! ## The text of a branch -/

section Texts

variable {bc : Calculator} {target : Target}

theorem eq_codeBase (special : SpecialRegister) (same : "%CB".toList = '%' :: special.name) : special = .codeBase := by
  revert same
  cases special <;> decide

theorem describes_codeBase (describes : DescribesTarget bc "%CB".toList target) :
    target = .register (.special .codeBase) := by
  cases target with
  | register name =>
    cases name with
    | general width index =>
      obtain ⟨digits, -, same⟩ := describes
      cases width <;> exact absurd (List.cons.inj (List.cons.inj same).2).1 (by decide)
    | special special => rw [eq_codeBase special describes]
  | constant literal =>
    obtain ⟨expression, same, -⟩ := describes
    exact absurd (List.cons.inj same).1 (by decide)
  | memory ratio width base offset1 offset2 =>
    obtain ⟨_, _, _, same, -⟩ := describes
    exact absurd (List.cons.inj same).1 (by decide)

theorem describes_placeholder (describes : DescribesTarget bc "$64(0XFFFFFFFFFFFFFFFF)".toList target) :
    ∃ constant, target = .constant constant ∧ IsBlank constant := by
  cases target with
  | register name =>
    cases name with
    | general width index =>
      obtain ⟨digits, -, same⟩ := describes
      exact absurd (List.cons.inj same).1 (by decide)
    | special special => exact absurd (List.cons.inj describes).1 (by decide)
  | constant literal =>
    obtain ⟨width, value⟩ := literal
    obtain ⟨expression, same, -, numeral⟩ := describes
    dsimp only at same numeral
    have text : "$64(0XFFFFFFFFFFFFFFFF)".toList = constantText .w64 "0XFFFFFFFFFFFFFFFF".toList := by decide
    obtain ⟨rfl, rfl⟩ := constantText_inj (text.symm.trans same)
    have known := numeral Numerals.maxU64 (.inr ⟨"FFFFFFFFFFFFFFFF".toList, by decide, by decide, by decide, rfl⟩)
    refine ⟨_, rfl, rfl, ?_⟩
    rw [known]
    decide
  | memory ratio width base offset1 offset2 =>
    obtain ⟨_, _, _, same, -⟩ := describes
    exact absurd (List.cons.inj same).1 (by decide)

end Texts

/-! ## Paths -/

/-- An instruction line at a chunk, and what it means. -/
structure SourceLine (bc : Calculator) (org : ℕ) (files : List FileAttr) (chunk : ℕ) (instruction : Instruction) : Prop where
  line : ∃ line text earlier chunks origin position, LineAt bc org files line earlier chunks origin position ∧
    IsInstructionLine bc origin position line text ∧ Meaning bc org files earlier.symbol_table text instruction ∧
      chunks.length = chunk

/-- A line at a chunk that branches to a label in the same code segment. -/
structure BranchLine (bc : Calculator) (org : ℕ) (files : List FileAttr) (chunk : ℕ) (branch : Branch)
    (name : List Char) : Prop where
  line : ∃ line text earlier chunks origin position, LineAt bc org files line earlier chunks origin position ∧
    IsInstructionLine bc origin position line text ∧ labelIn earlier.symbol_table text = some name ∧
    lineParts (placeholderLine earlier.symbol_table text) = some ⟨branch.mnemonic, none, branchOperands⟩ ∧
      chunks.length = chunk

/-- A way through the lines of the source, with the number of lines. -/
inductive Path (host : Host) (bc : Calculator) (org : ℕ) (files : List FileAttr) (image : List Byte) :
    ℕ → Machine → ℕ → Machine → ℕ → Prop where
  | done (machine : Machine) (chunk : ℕ) : Path host bc org files image 0 machine chunk machine chunk
  /-- The procedure leaves the instruction pointer behind the line, and the file in memory. -/
  | straight {steps : ℕ} {machine after last : Machine} {chunk place : ℕ} {instruction : Instruction}
      (line : SourceLine bc org files chunk instruction)
      (runs : dispatch host (instruction.active machine.registers) (fetched machine instruction.bytes.length) = .ok () after)
      (pointer : after.registers.InstructionPointer =
        (fetched machine instruction.bytes.length).registers.InstructionPointer)
      (kept : Loaded after org image) (rest : Path host bc org files image steps after (chunk + 1) last place) :
      Path host bc org files image (steps + 1) machine chunk last place
  /-- The branch goes on behind the label line or behind its own line. -/
  | branch {steps : ℕ} {machine last : Machine} {chunk place address : ℕ} {branch : Branch} {name : List Char}
    {chunks : List (List Byte)}
      (line : BranchLine bc org files chunk branch name) (registered : branch.Registered)
      (label : LabelAt bc org files name chunks address)
      (rest : Path host bc org files image steps
        (branch.follow (fetched machine (branch.code address).bytes.length) (BitVec.ofNat 64 address))
        (if branch.taken machine.registers then chunks.length else chunk + 1) last place) :
      Path host bc org files image (steps + 1) machine chunk last place

/-- So many steps of the machine. -/
def Executes (host : Host) : ℕ → Machine → Machine → Prop
  | 0, machine, last => machine = last
  | steps + 1, machine, last => ∃ after, execute host machine = .ok () after ∧ Executes host steps after last

section Paths

variable {host : Host} {env : Environment} {bc : Calculator} {verbose : Bool} {org steps chunk place : ℕ}
    {files : List FileAttr}
  {objects : List ObjectFile} {linked : ObjectFile} {machine last : Machine} {instruction : Instruction}
    {branch : Branch} {name : List Char}
  {chunks : List (List Byte)} {address : ℕ}

theorem SourceLine.chunk_eq (build : Build env bc verbose org files objects linked)
    (line : SourceLine bc org files chunk instruction) :
    linked.code[chunk]? = some instruction.bytes := by
  obtain ⟨_, _, _, _, _, _, at_, here, meaning, rfl⟩ := line.line
  exact (build.chunk at_ here meaning).1

/-- The instruction of a branch line goes to the address of the label. -/
theorem BranchLine.source (echoes : EchoesNumerals bc) (build : Build env bc verbose org files objects linked)
    (line : BranchLine bc org files chunk branch name) (label : LabelAt bc org files name chunks address) :
    SourceLine bc org files chunk (branch.code address) := by
  obtain ⟨line, text, earlier, before, origin, position, at_, here, named, parts, length⟩ := line.line
  obtain ⟨instruction, meaning⟩ := build.meaning echoes at_ here (branch_registersExist parts)
  cases meaning with
  | plain unlabelled => rw [named] at unlabelled; cases unlabelled
  | @labelled instruction other chunks' address' named' label' describes =>
    have meaning : Meaning bc org files earlier.symbol_table text (relocate address instruction) :=
      .labelled named label describes
    obtain ⟨parts', found, mnemonic, width, operands⟩ := describes.parts
    rw [parts] at found
    obtain rfl := Option.some.inj found
    obtain ⟨_, _, targets, _, _⟩ := instruction
    dsimp only at mnemonic width operands
    subst mnemonic width
    cases operands with
    | cons base operands =>
      cases operands with
      | cons place operands =>
        cases operands
        obtain rfl := describes_codeBase base
        obtain ⟨constant, rfl, blank⟩ := describes_placeholder place
        have same : relocateConstant address constant = addressConstant address := if_pos blank
        refine ⟨line, text, earlier, before, origin, position, at_, here, ?_, length⟩
        have code : branch.code address = relocate address ⟨branch.mnemonic, none,
            [.register (.special .codeBase), .constant constant], (branch.code address).widthed,
              (branch.code address).counted⟩ := by
          simp only [relocate, List.map_cons, List.map_nil, relocateTarget, same]
          rfl
        rw [code]
        exact meaning

/-- A line that leaves the instruction pointer and the file alone is followed by the next chunk. -/
theorem AtChunk.runs_straight {after : Machine} (build : Build env bc verbose org files objects linked)
    (at_ : AtChunk org linked.code machine chunk) (line : SourceLine bc org files chunk instruction)
    (runs : dispatch host (instruction.active machine.registers) (fetched machine instruction.bytes.length) = .ok () after)
    (pointer : after.registers.InstructionPointer = (fetched machine instruction.bytes.length).registers.InstructionPointer)
    (kept : Loaded after org linked.code.flatten) :
    execute host machine = .ok () after ∧ AtChunk org linked.code after (chunk + 1) := by
  obtain ⟨reached, next⟩ := at_.fetch (line.chunk_eq build)
  exact ⟨execute_returns reached runs, kept, pointer.trans next.points⟩

/-- A branch is followed by the chunk behind the label line or by the next one. -/
theorem AtChunk.runs_branch (echoes : EchoesNumerals bc) (build : Build env bc verbose org files objects linked)
    (at_ : AtChunk org linked.code machine chunk) (line : BranchLine bc org files chunk branch name)
    (registered : branch.Registered)
    (label : LabelAt bc org files name chunks address) :
    execute host machine = .ok ()
    (branch.follow (fetched machine (branch.code address).bytes.length) (BitVec.ofNat 64 address)) ∧
      AtChunk org linked.code (branch.follow (fetched machine (branch.code address).bytes.length) (BitVec.ofNat 64 address))
        (if branch.taken machine.registers then chunks.length else chunk + 1) := by
  obtain ⟨reached, next⟩ := at_.fetch ((line.source echoes build label).chunk_eq build)
  obtain ⟨table, laid⟩ := build.laid
  have taken : branch.taken (fetched machine (branch.code address).bytes.length).registers =
    branch.taken machine.registers := by
    cases branch with
    | always => rfl
    | conditional jump => cases jump <;> rfl
  refine ⟨execute_returns reached (Branch.dispatch_code registered machine.registers),
    next.loaded.of_same (Branch.follow_base _) rfl, ?_⟩
  rw [Branch.follow_pointer, taken]
  split_ifs
  · rw [(laid.addresses name chunks address label).2]
    exact BitVec.eq_of_toNat_eq (by rw [BitVec.toNat_ofNat, BitVec.toNat_ofNat, Nat.mod_mod])
  · exact next.points

/-- A path through the lines is a run of the machine. -/
theorem path_runs (echoes : EchoesNumerals bc) (build : Build env bc verbose org files objects linked)
    (path : Path host bc org files linked.code.flatten steps machine chunk last place)
    (at_ : AtChunk org linked.code machine chunk) :
    Executes host steps machine last ∧ AtChunk org linked.code last place := by
  induction path with
  | done machine chunk => exact ⟨rfl, at_⟩
  | straight line runs pointer kept rest ih =>
    obtain ⟨executed, next⟩ := at_.runs_straight build line runs pointer kept
    obtain ⟨later, arrives⟩ := ih next
    exact ⟨⟨_, executed, later⟩, arrives⟩
  | branch line registered label rest ih =>
    obtain ⟨executed, next⟩ := at_.runs_branch echoes build line registered label
    obtain ⟨later, arrives⟩ := ih next
    exact ⟨⟨_, executed, later⟩, arrives⟩

end Paths

/-! ## A program that spins -/

/-- The program is the BIOS of a machine that is powered on. -/
def Machine.spinning : Machine := Machine.powerOn.overwrite BIOS_START spinLinked.code.flatten

def nopCode : Instruction := ⟨.nop, none, [], widthed_none, rfl⟩

theorem atChunk_spinning : AtChunk BIOS_START spinLinked.code Machine.spinning 0 where
  loaded := ⟨by decide +kernel, by decide +kernel⟩
  points := rfl

theorem sourceLine_spin : SourceLine numeralCalculator BIOS_START [spinFile] 0 nopCode where
  line := ⟨"NOP".toList, "NOP".toList, ⟨[], [⟨"foo".toList, BIOS_START, true, false, []⟩], []⟩, [], BIOS_START, BIOS_START,
    ⟨[], spinFile, [], ["foo:".toList], ["JMP <%CB>, <foo>".toList], [], rfl, rfl, rfl, rfl, rfl⟩,
      ⟨rfl, rfl, rfl, rfl, rfl, rfl⟩,
    .plain rfl ⟨⟨⟨.nop, none, []⟩, rfl, rfl, rfl, .nil⟩, rfl⟩, rfl⟩

theorem branchLine_spin : BranchLine numeralCalculator BIOS_START [spinFile] 1 .always "foo".toList where
  line := ⟨"JMP <%CB>, <foo>".toList, "JMP <%CB>, <foo>".toList,
    ⟨[[0x00]], [⟨"foo".toList, BIOS_START, true, false, []⟩], []⟩, [[0x00]],
    BIOS_START, BIOS_START + 1, ⟨[], spinFile, [], ["foo:".toList, "NOP".toList], [], [], rfl, rfl, rfl, rfl, rfl⟩,
    ⟨rfl, rfl, rfl, rfl, rfl, rfl⟩, rfl, rfl, rfl⟩

theorem labelAt_spin : LabelAt numeralCalculator BIOS_START [spinFile] "foo".toList [] BIOS_START :=
  ⟨[], spinFile, [], [], "foo:".toList, ["NOP".toList, "JMP <%CB>, <foo>".toList],
    [⟨[], spinFile.symbol_table, []⟩], rfl, rfl,
    ⟨_, rfl, rfl⟩, rfl, rfl⟩

/-- Two steps lead from the first line of the program back to it. -/
theorem path_runs_spin : ∃ last, Executes Host.ample 2 Machine.spinning last ∧ AtChunk BIOS_START spinLinked.code last 0 :=
  ⟨_, path_runs numeralCalculator_echoes build_spin
    (.straight sourceLine_spin rfl rfl (atChunk_spinning.loaded.of_same rfl rfl)
      (.branch branchLine_spin trivial labelAt_spin (.done _ _))) atChunk_spinning⟩

end Sysdarft.Coding
