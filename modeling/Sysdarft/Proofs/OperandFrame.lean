import Sysdarft.Proofs.OperandAccess
import Sysdarft.Proofs.RegisterFile

/-! # What an operand reads

The reading of an operand is a function of the registers and memory. Neither the flags nor the
instruction pointer take part in it, and a store to another place does not show in it.
-/

namespace Sysdarft

open Effects

/-- The value of an operand, if it can be read. -/
def Operand.reading (machine : Machine) (operand : Operand) : Option Word :=
  match operand.getVal machine with
  | .ok value _ => some value
  | .error _ _ => none

variable {machine first second : Machine} {operand target : Operand} {width : Width} {value : Word}

theorem Operand.reading_eq_some : operand.reading machine = some value ↔ operand.getVal machine = .ok value machine := by
  rw [Operand.reading]
  rcases keeps_all_cases (keeps_getVal operand) machine with ⟨found, success⟩ | ⟨fault, failed⟩
  · rw [success]
    constructor
    · rintro ⟨⟩
      rfl
    · rintro ⟨⟩
      rfl
  · rw [failed]
    exact ⟨nofun, nofun⟩

theorem Operand.reading_codes (widthBCD index : Byte) (machine : Machine) :
    (Operand.register widthBCD index).reading machine =
      (Register.ofCodes widthBCD index).map machine.registers.load := by
  rw [Operand.reading, Operand.getVal, accessRegister, bind_apply, selectRegister]
  cases Register.ofCodes widthBCD index with
  | some register => rfl
  | none =>
    dsimp only
    split_ifs <;> rfl

@[simp] theorem Operand.reading_register (register : Register) (machine : Machine) :
    (Operand.ofRegister register).reading machine = some (machine.registers.load register) := by
  rw [Operand.ofRegister, Operand.reading_codes, Register.ofCodes_codes, Option.map_some]

theorem Operand.reading_memory {address : Word} (inside : machine.Holds address width) :
    (Operand.memory address width.bcd).reading machine = some (machine.wordAt address width) :=
  Operand.reading_eq_some.mpr (getVal_memory inside)

theorem Operand.reading_memory_outside {address : Word} (outside : ¬ machine.Holds address width) :
    (Operand.memory address width.bcd).reading machine = none := by
  rw [Operand.reading, getVal_memory_outside outside]

theorem Operand.reading_memory_unknown {address : Word} {widthBCD : Byte} (unknown : Width.ofBcd widthBCD = none)
    (machine : Machine) : (Operand.memory address widthBCD).reading machine = none := by
  rw [Operand.reading, Operand.getVal, unknown]
  rfl

/-! ## Flags and the instruction pointer -/

/-- What operands read from: the registers without the flags and the instruction pointer, and memory. -/
def Machine.readable (machine : Machine) : Registers × GuestMemory :=
  ({ machine.registers with FlagRegister := 0, InstructionPointer := 0 }, machine.memory)

theorem Registers.load_readable (registers : Registers) (register : Register) :
    { registers with FlagRegister := 0, InstructionPointer := 0 }.load register = registers.load register := by
  cases register with
  | general width index => rfl
  | special special => cases special <;> rfl

theorem Machine.load_congr (same : first.readable = second.readable) (register : Register) :
    first.registers.load register = second.registers.load register := by
  rw [← first.registers.load_readable, ← second.registers.load_readable]
  exact congrArg (fun view => view.1.load register) same

theorem Machine.memory_congr (same : first.readable = second.readable) : first.memory = second.memory :=
  congrArg Prod.snd same

theorem Operand.reading_congr (same : first.readable = second.readable) (operand : Operand) :
    operand.reading first = operand.reading second := by
  have memory := Machine.memory_congr same
  cases operand with
  | register widthBCD index =>
    rw [reading_codes, reading_codes]
    congr 1
    funext register
    exact Machine.load_congr same register
  | constant value width => rfl
  | memory address widthBCD =>
    cases known : Width.ofBcd widthBCD with
    | none => rw [reading_memory_unknown known, reading_memory_unknown known]
    | some width =>
      obtain rfl := Width.bcd_of_ofBcd known
      have total : first.memory.total = second.memory.total := by rw [memory]
      by_cases inside : first.Holds address width
      · have inside' : second.Holds address width := by
          rw [Machine.Holds, ← total]
          exact inside
        rw [reading_memory inside, reading_memory inside', Machine.wordAt, Machine.wordAt, memory]
      · have outside : ¬ second.Holds address width := fun inside' => inside (by rw [Machine.Holds, total]; exact inside')
        rw [reading_memory_outside inside, reading_memory_outside outside]

/-- Fetching an instruction does not show in operands. -/
theorem Machine.readable_of_core (same : first.core = second.core) : first.readable = second.readable := by
  change first.core.readable = second.core.readable
  rw [same]

theorem Machine.flags_of_core (same : first.core = second.core) :
    first.registers.FlagRegister = second.registers.FlagRegister := by
  change first.core.registers.FlagRegister = second.core.registers.FlagRegister
  rw [same]

/-- A place can be stored to as long as it can be read. -/
theorem Operand.Writable.of_some (writable : operand.Writable first width) (reads : operand.reading second = some value) :
    operand.Writable second width := by
  cases writable with
  | register register => exact .register register
  | memory inside =>
    apply Operand.Writable.memory
    by_contra outside
    rw [reading_memory_outside outside] at reads
    cases reads

theorem Operand.Writable.of_reading (writable : operand.Writable first width)
    (same : operand.reading second = operand.reading first) : operand.Writable second width := by
  obtain ⟨value, reads, -⟩ := (Operand.Readable.place writable).getVal
  exact writable.of_some (same.trans (reading_eq_some.mpr reads))

theorem Operand.Readable.of_reading (readable : operand.Readable first width)
    (same : operand.reading second = operand.reading first) : operand.Readable second width := by
  cases readable with
  | place writable => exact .place (writable.of_reading same)
  | constant small => exact .constant small

/-! ## Stores to other places -/

/-- Registers of one width with different codes, bytes in memory that do not overlap, or operands of
different kinds. -/
def Operand.Apart (width : Width) : Operand → Operand → Prop
  | .register _ index, .register _ index' => index ≠ index'
  | .memory address _, .memory address' _ =>
    address.toNat + width.bytes ≤ address'.toNat ∨ address'.toNat + width.bytes ≤ address.toNat
  | _, _ => True

theorem Registers.load_store_apart (registers : Registers) (value : Word) {first second : Register}
    (width : first.width = second.width) (apart : first.code ≠ second.code) :
    (registers.store value first).load second = registers.load second := by
  cases first with
  | general firstWidth firstIndex =>
    cases second with
    | general secondWidth secondIndex =>
      obtain rfl : firstWidth = secondWidth := width
      apply Registers.load_store_of_ne
      intro same
      exact apart (by rw [same])
    | special special => cases special <;> rfl
  | special special =>
    cases second with
    | general secondWidth secondIndex => cases special <;> rfl
    | special other => cases special <;> cases other <;> first | rfl | exact absurd rfl apart

theorem Machine.wordAt_overwrite_apart {address address' : Word} (inside : machine.Holds address width)
    (apart : address.toNat + width.bytes ≤ address'.toNat ∨ address'.toNat + width.bytes ≤ address.toNat) (number : ℕ) :
    (machine.overwrite address.toNat (LittleEndian.bytes width.bytes number)).wordAt address' width =
      machine.wordAt address' width := by
  have length : (LittleEndian.bytes width.bytes number).length = width.bytes := LittleEndian.length_bytes ..
  have view : (machine.overwrite address.toNat (LittleEndian.bytes width.bytes number)).memory.peek =
      FlatMemory.write machine.memory.peek address.toNat (LittleEndian.bytes width.bytes number) := by
    apply GuestMemory.peek_overwrite
    rw [length]
    exact inside
  rw [Machine.wordAt, Machine.wordAt, view, FlatMemory.read_write_disjoint]
  rw [length]
  exact apart.symm

/-- The two kinds of places. -/
theorem Operand.Writable.register_or_memory (writable : operand.Writable machine width) :
    (∃ register : Register, register.width = width ∧ operand = .ofRegister register) ∨
      ∃ address, operand = .memory address width.bcd ∧ machine.Holds address width := by
  cases writable with
  | register register => exact .inl ⟨register, rfl, rfl⟩
  | memory inside => exact .inr ⟨_, rfl, inside⟩

/-- A store to a place does not show in an operand apart from it. -/
theorem Operand.reading_setVal {after : Machine} (writable : target.Writable machine width)
    (readable : operand.Readable machine width) (apart : target.Apart width operand)
    (stores : target.setVal value machine = .ok () after) : operand.reading after = operand.reading machine := by
  cases readable with
  | constant small => rfl
  | place place =>
    rcases writable.register_or_memory with ⟨register, known, rfl⟩ | ⟨address, rfl, inside⟩
    · rw [setVal_register] at stores
      obtain rfl := (EStateM.Result.ok.inj stores).2
      rcases place.register_or_memory with ⟨other, known', rfl⟩ | ⟨address', rfl, inside'⟩
      · rw [reading_register, reading_register, Registers.load_store_apart _ _ (known.trans known'.symm) apart]
      · have still : Machine.Holds { machine with registers := machine.registers.store value register } address' width :=
          inside'
        rw [reading_memory inside', reading_memory still]
        rfl
    · rw [setVal_memory value inside] at stores
      obtain rfl := (EStateM.Result.ok.inj stores).2
      rcases place.register_or_memory with ⟨other, -, rfl⟩ | ⟨address', rfl, inside'⟩
      · rw [reading_register, reading_register]
        rfl
      · have still : (machine.overwrite address.toNat (LittleEndian.bytes width.bytes value.toNat)).Holds address' width :=
          inside'
        rw [reading_memory inside', reading_memory still, Machine.wordAt_overwrite_apart inside apart]

/-! ## Steps -/

/-- `execute` runs the procedure of the instruction it fetched. -/
theorem execute_fetched {host : Host} {instruction : ActiveInstruction} {fetched : Machine}
    (reached : fetch machine = .ok instruction fetched) :
    execute host machine = guarded host (dispatch host instruction) fetched := by
  simp only [execute, guarded, executeBody, tryCatch_apply, bind_apply, reached]

/-- A procedure that returns ends the step. -/
theorem execute_returns {host : Host} {instruction : ActiveInstruction} {fetched after : Machine}
    (reached : fetch machine = .ok instruction fetched) (done : dispatch host instruction fetched = .ok () after) :
    execute host machine = .ok () after := by
  rw [execute_fetched reached]
  simp only [guarded, tryCatch_apply, done]

end Sysdarft
