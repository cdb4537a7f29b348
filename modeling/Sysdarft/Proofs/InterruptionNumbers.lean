import Sysdarft.Proofs.ErrorDelivery

/-! # Illegal interruption numbers

`INT` checks its number twice: against the number of entries, which lets `0x100` through, and against the end of
the table, behind the mask. Under the mask `INT 0x100` is therefore not reported; every other number above `0xFF`
is, and no number up to `0xFF` fails either check.
-/

namespace Sysdarft

open Effects Reading

variable {host : Host} {machine : Machine} {code : Word} {length : ℕ}

/-- The instruction at `CB:IP` is `INT` with a readable operand of this value. -/
def Machine.Interrupts (machine : Machine) (code : Word) (length : ℕ) : Prop :=
  ∃ arguments : Arguments, machine.decoded = .done (.int, arguments) length ∧
    arguments.getVal 0 (machine.fetched length) = .ok code (machine.fetched length)

theorem Machine.Interrupts.executeBody (interrupts : machine.Interrupts code length) :
    executeBody host machine = doInterruption host code (machine.fetched length) := by
  obtain ⟨arguments, decoded, read⟩ := interrupts
  have fetched := fetch_apply machine
  rw [decoded] at fetched
  rw [Sysdarft.executeBody, bind_ok fetched]
  change dispatch host ⟨Mnemonic.int.opcode, arguments.width, arguments.operands⟩ _ = _
  rw [dispatch_registered rfl]
  exact bind_ok read

/-! ## The two checks -/

/-- Numbers above the entry count are refused before the mask is looked at. -/
theorem doInterruption_illegal (illegal : BitVec.ofNat 64 MAX_INTERRUPTION_ENTRY < code) (machine : Machine) :
    doInterruption host code machine = .error (.badInterruption "Interruption out of range") machine := by
  simp only [doInterruption, if_pos illegal, throw_apply]

/-- `INT 0x100` under the mask raises nothing. -/
theorem Machine.Interrupts.not_raises (interrupts : machine.Interrupts 0x100 length)
    (masked : getFlag machine.registers.FlagRegister .interruptionMask = true) (code : Word) :
    ¬ Raises host machine code := by
  rintro ⟨fault, stopped, failed, -⟩
  rw [interrupts.executeBody] at failed
  have done : doInterruption host 0x100 (machine.fetched length) = .ok () (machine.fetched length) :=
    doInterruption_held (by decide) ⟨by decide, masked⟩
  cases done.symm.trans failed

/-- The exceptions of the two checks. -/
def Fault.OfNumber (fault : Fault) : Prop :=
  fault = .badInterruption "Interruption out of range" ∨ ∃ message, fault = .interruptionOutOfRange message

/-- A number of the table fails neither check. -/
theorem doInterruption_number (known : code.toNat ≤ 0xFF) (machine : Machine) {fault : Fault}
    (failed : thrown (doInterruption host code machine) = some fault) : ¬ fault.OfNumber := by
  have last : code ≠ 0x100 := by
    rintro rfl
    exact absurd known (by decide)
  rw [doInterruption_thrown, interruptionTrouble, if_neg (inTable known)] at failed
  simp only [if_neg last] at failed
  rintro (rfl | ⟨message, rfl⟩)
  · split_ifs at failed <;> simp [Trouble.raises, Site.fault] at failed
  · split_ifs at failed <;> simp [Trouble.raises, Site.fault] at failed

/-! ## Reports -/

/-- A number above `0xFF` raises the bad interruption, whose delivery is the rest of the step; a number up to `0xFF`
never raises it. -/
structure NumbersReported (host : Host) (machine : Machine) : Prop where
  beyond : ∀ (code : Word) (length : ℕ), machine.Interrupts code length → 0xFF < code.toNat →
    Raises host machine 0x04 ∧ execute host machine = .ok () ((machine.fetched length).answered 0x04)
  within : ∀ (code : Word) (length : ℕ), machine.Interrupts code length → code.toNat ≤ 0xFF →
    ∀ fault, thrown (executeBody host machine) = some fault → ¬ fault.OfNumber

/-- A failed check is reported. -/
private theorem reported (fault : Fault) {stopped : Machine} (failed : executeBody host machine = .error fault stopped)
    (answered : fault.interruption = some 0x04) (unnoted : stopped.noted fault = stopped) :
    Raises host machine 0x04 ∧ execute host machine = .ok () (stopped.answered 0x04) := by
  have delivered := execute_answered failed answered
  refine ⟨⟨fault, stopped, failed, answered, delivered⟩, ?_⟩
  rw [delivered, unnoted, answered_apply answered]

/-- Every number is reported but `0x100` under the mask. -/
theorem numbersReported_iff (host : Host) (machine : Machine) :
    NumbersReported host machine ↔
      ¬ (getFlag machine.registers.FlagRegister .interruptionMask = true ∧ ∃ length, machine.Interrupts 0x100 length) := by
  constructor
  · rintro every ⟨masked, length, interrupts⟩
    exact interrupts.not_raises masked 0x04 (every.beyond 0x100 length interrupts (by decide)).1
  · intro open_
    refine ⟨fun code length interrupts high => ?_, fun code length interrupts known fault failed => ?_⟩
    · by_cases illegal : BitVec.ofNat 64 MAX_INTERRUPTION_ENTRY < code
      · refine reported (.badInterruption "Interruption out of range") ?_ rfl rfl
        rw [interrupts.executeBody, doInterruption_illegal illegal]
      · have last : code = 0x100 := by
          by_contra other
          exact absurd (vector_exists illegal other) (not_le.mpr high)
        subst last
        have unmasked : ¬ Held 0x100 (machine.fetched length) := fun held => open_ ⟨held.2, length, interrupts⟩
        refine reported (.interruptionOutOfRange "No such interruption: 256") ?_ rfl rfl
        rw [interrupts.executeBody]
        exact doInterruption_beyond unmasked
    · rw [interrupts.executeBody] at failed
      exact doInterruption_number known _ failed

/-- A powered-on machine whose BIOS starts with `INT <$16(0x0100)>`, with interruptions masked. -/
def Machine.interrupting : Machine :=
  let loaded := Machine.powerOn.overwrite BIOS_START
    (Format.Instruction.mk .int none [.constant ⟨.w16, 0x0100⟩] rfl rfl).bytes
  { loaded with registers := { loaded.registers with FlagRegister := setFlag 0 .interruptionMask true } }

theorem interrupting_interrupts : Machine.interrupting.Interrupts 0x100 5 :=
  ⟨⟨0, [.constant 0x100 Width.w16.bcd]⟩, rfl, rfl⟩

/-- The masked `INT 0x100` goes on with the next instruction. -/
theorem not_numbersReported : ¬ ∀ (host : Host) (machine : Machine), NumbersReported host machine := by
  intro every
  exact interrupting_interrupts.not_raises (by decide) 0x04
    ((every Host.ample Machine.interrupting).beyond 0x100 5 interrupting_interrupts (by decide)).1

end Sysdarft
