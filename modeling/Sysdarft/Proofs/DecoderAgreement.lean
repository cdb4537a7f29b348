import Sysdarft.Proofs.DecoderFormat
import Sysdarft.Proofs.SpelledLines

/-! # What the two decoders accept

The CPU accepts the bytes of the format and no others. The disassembler prints a line for these too, but also for
registers with an index that no register has, and it prints nothing of a memory reference that it abandons.
-/

namespace Sysdarft.Coding

open Effects Format

variable {input : List Byte}

/-! ## The CPU -/

variable {machine : Machine}

/-- The CPU takes the first bytes for an instruction, and its operands resolve. -/
def Accepts (machine : Machine) (input : List Byte) (length : ℕ) : Prop :=
  length ≤ input.length ∧ ∃ active, popInstruction machine = .ok active (machine.advance length) ∧
    ∀ operand ∈ active.operands, Resolves operand

theorem target_resolves (registers : Registers) (target : Target) : Resolves (target.operand registers) := by
  cases target with
  | register register =>
    rw [Target.operand, Resolves, Register.ofCodes_codes]
    rfl
  | constant constant => trivial
  | memory ratio width base offset1 offset2 => trivial

theorem advance_inj {first second : ℕ} (small : first < 2 ^ 64) (small' : second < 2 ^ 64)
    (same : machine.advance first = machine.advance second) : first = second := by
  have place : machine.registers.InstructionPointer + BitVec.ofNat 64 first =
      machine.registers.InstructionPointer + BitVec.ofNat 64 second :=
    congrArg (fun machine => machine.registers.InstructionPointer) same
  have value := congrArg BitVec.toNat ((BitVec.add_right_inj _).mp place)
  rwa [BitVec.toNat_ofNat, BitVec.toNat_ofNat, Nat.mod_eq_of_lt small, Nat.mod_eq_of_lt small'] at value

/-- Of two codes at one place, the shorter is the front of the longer. -/
theorem code_prefix {first second : List Byte} (code : machine.Code first) (code' : machine.Code second)
    (shorter : first.length ≤ second.length) : first <+: second := by
  obtain ⟨more, length⟩ := Nat.exists_eq_add_of_le shorter
  have content := code'.2
  rw [length, FlatMemory.read_add, code.2] at content
  exact ⟨_, content⟩

theorem code_small {bytes : List Byte} (code : machine.Code bytes) : bytes.length < 2 ^ 64 := by
  have bound := machine.memory.addressable
  have inside := code.1
  simp only [GuestMemory.total] at inside
  omega

/-- The CPU accepts the format. -/
theorem accepts_iff (code : machine.Code input) {length : ℕ} :
    Accepts machine input length ↔
      ∃ (instruction : Instruction) (rest : List Byte), input = instruction.bytes ++ rest ∧
        length = instruction.bytes.length := by
  constructor
  · rintro ⟨within, active, popped, resolves⟩
    obtain ⟨instruction, code', same⟩ := popInstruction_inv popped resolves
    have equal : length = instruction.bytes.length :=
      advance_inj (lt_of_le_of_lt within (code_small code)) (code_small code') same
    obtain ⟨rest, spelled⟩ := code_prefix code' code (equal ▸ within)
    exact ⟨instruction, rest, spelled.symm, equal⟩
  · rintro ⟨instruction, rest, rfl, rfl⟩
    refine ⟨by simp, _, popInstruction_bytes instruction code, fun operand member => ?_⟩
    obtain ⟨target, -, rfl⟩ := List.mem_map.mp member
    exact target_resolves machine.registers target

/-! ## Agreement -/

/-- The disassembler prints an instruction exactly when the CPU accepts it, of the same length, and otherwise reports
bytes as data. -/
structure SameLanguage (machine : Machine) (input : List Byte) : Prop where
  accepts : PrintsInstruction (decodeInstruction input).1 ↔ ∃ length, Accepts machine input length
  consumes : ∀ length, Accepts machine input length → (decodeInstruction input).2 = input.drop length
  reports : (¬ ∃ length, Accepts machine input length) → ReportsBad (decodeInstruction input).1

/-- Nothing of a whole instruction is printed as data, and yet some operand has a register with an index that is too
large, or is a memory reference with a parameter that is neither a register nor a constant. -/
def Missed (input : List Byte) : Prop :=
  ∃ mnemonic op_width targets rest, spellInstruction input = .ok (.line mnemonic op_width targets) rest ∧
    (∀ target ∈ targets, ¬ target.Marked) ∧ ∃ target ∈ targets, target = .abandoned ∨ target.Overnumbered

theorem accepts_spelled (code : machine.Code input) :
    (∃ length, Accepts machine input length) ↔
      ∃ mnemonic op_width targets rest, spellInstruction input = .ok (.line mnemonic op_width targets) rest ∧
        ∀ target ∈ targets, target.Legal := by
  simp only [accepts_iff code]
  constructor
  · rintro ⟨length, instruction, rest, rfl, -⟩
    obtain ⟨targets, legal, read⟩ := spellInstruction_bytes instruction rest
    exact ⟨_, _, _, _, read, legal⟩
  · rintro ⟨mnemonic, op_width, targets, rest, read, legal⟩
    obtain ⟨instruction, spelled⟩ := spellInstruction_inv read legal
    exact ⟨_, instruction, rest, spelled, rfl⟩

theorem sameLanguage_iff (code : machine.Code input) :
    SameLanguage machine input ↔ ¬ NoInstruction input ∧ ¬ Missed input := by
  have consumes (length : ℕ) (accepted : Accepts machine input length) :
      (decodeInstruction input).2 = input.drop length := by
    obtain ⟨instruction, rest, rfl, rfl⟩ := (accepts_iff code).mp accepted
    rw [decodeInstruction_bytes, List.drop_left]
  have printed := decodeInstruction_spelled input
  have accepted := accepts_spelled code
  have reads := spellInstruction_reads_iff input
  cases spells : spellInstruction input with
  | error e rest =>
    rw [spells] at printed accepted reads
    have missing : NoInstruction input := by
      by_contra present
      obtain ⟨spelled, rest, read⟩ := reads.mpr present
      cases read
    refine iff_of_false (fun same => ?_) fun fine => fine.1 missing
    have none : ¬ ∃ length, Accepts machine input length := by
      rw [accepted]
      rintro ⟨_, _, _, _, read, -⟩
      cases read
    obtain ⟨line, member, -⟩ := same.reports none
    rw [printed] at member
    cases member
  | ok spelled rest =>
    rw [spells] at printed accepted reads
    have present : ¬ NoInstruction input := reads.mp ⟨_, _, rfl⟩
    have prints := printsInstruction_iff spelled
    have reports := reportsBad_iff spelled
    have output : (decodeInstruction input).1 = spelled.lines := by rw [printed]
    rw [← output] at prints reports
    constructor
    · intro same
      refine ⟨present, ?_⟩
      rintro ⟨mnemonic, op_width, targets, after, read, unmarked, target, member, wrong⟩
      rw [spells] at read
      cases read
      have none : ¬ ∃ length, Accepts machine input length := by
        rw [accepted]
        rintro ⟨_, _, _, _, read, legal⟩
        cases read
        obtain ⟨-, given, numbered⟩ := (target.legal_iff).mp (legal target member)
        exact wrong.elim given numbered
      exact reports.mp (same.reports none) unmarked
    · rintro ⟨-, caught⟩
      by_cases legal : ∃ length, Accepts machine input length
      · obtain ⟨mnemonic, op_width, targets, after, read, legals⟩ := accepted.mp legal
        cases read
        have clear (target : SpelledTarget) (member : target ∈ targets) : ¬ target.Marked ∧ target ≠ .abandoned :=
          have fine := target.legal_iff.mp (legals target member)
          ⟨fine.1, fine.2.1⟩
        exact ⟨iff_of_true (prints.mpr ⟨_, _, _, rfl, clear⟩) legal, consumes, fun none => absurd legal none⟩
      · have reported : ReportsBad (decodeInstruction input).1 := by
          rw [reports]
          intro unmarked
          cases spelled with
          | line mnemonic op_width targets =>
            refine caught ⟨mnemonic, op_width, targets, rest, spells, unmarked, ?_⟩
            by_contra all
            refine legal (accepted.mpr ⟨mnemonic, op_width, targets, rest, rfl, fun target member => ?_⟩)
            refine target.legal_iff.mpr ⟨unmarked target member, fun given => ?_, fun numbered => ?_⟩
            · exact all ⟨target, member, .inl given⟩
            · exact all ⟨target, member, .inr numbered⟩
          | cut | unsized | unknown => exact unmarked.elim
        exact ⟨iff_of_false (fun prints => prints.not_reports reported) legal, consumes, fun _ => reported⟩

/-- The bytes of the format are none that is missed. -/
theorem not_missed (instruction : Instruction) (rest : List Byte) :
    ¬ NoInstruction (instruction.bytes ++ rest) ∧ ¬ Missed (instruction.bytes ++ rest) := by
  obtain ⟨targets, legal, read⟩ := spellInstruction_bytes instruction rest
  refine ⟨(spellInstruction_reads_iff _).mp ⟨_, _, read⟩, ?_⟩
  rintro ⟨mnemonic, op_width, found, after, read', -, target, member, wrong⟩
  cases read.symm.trans read'
  obtain ⟨-, given, numbered⟩ := target.legal_iff.mp (legal target member)
  exact wrong.elim given numbered

/-- `NOT .8bit <%R0>`. -/
def complementing : Instruction :=
    ⟨.not, some .w8, [.register (.general .w8 ⟨0, Width.registerCount_pos .w8⟩)], widthed_some .w8, rfl⟩

theorem sameLanguage_complementing :
    SameLanguage (Machine.powerOn.overwrite BIOS_START complementing.bytes) (complementing.bytes ++ []) :=
  (sameLanguage_iff (by constructor <;> decide +kernel)).mpr (not_missed complementing [])

/-- The disassembler prints `NOT .8bit <%R9>`, which the CPU does not have. -/
theorem not_sameLanguage :
    ¬ ∀ (machine : Machine) (input : List Byte), machine.Code input → SameLanguage machine input := by
  intro every
  have same := every (Machine.powerOn.overwrite BIOS_START [Mnemonic.not.opcode, 0x08, 0x01, 0x08, 0x09])
    [Mnemonic.not.opcode, 0x08, 0x01, 0x08, 0x09] (by constructor <;> decide +kernel)
  refine ((sameLanguage_iff (by constructor <;> decide +kernel)).mp same).2 ⟨_, _, _, _, rfl, ?_, ?_⟩
  · decide
  · exact ⟨_, List.mem_singleton_self _, .inr (by decide)⟩

end Sysdarft.Coding
