import Sysdarft.Proofs.ErrorDelivery

/-! # Block moves

`MOVS` reads the whole source before it writes, so blocks that overlap are moved as at one time, in either direction.
The empty block is the exception: at the end of memory it has no page, and the access is undefined.
-/

namespace Sysdarft

open Effects Reading

variable {host : Host} {machine : Machine}

namespace Machine

/-- `%EB:%EP`. -/
def moveSource (machine : Machine) : Word := machine.registers.ExtendedPointer + machine.registers.ExtendedBase

/-- `%DB:%DP`. -/
def moveDest (machine : Machine) : Word := machine.registers.DataPointer + machine.registers.DataBase

def moveCount (machine : Machine) : Word := machine.registers.load FER3

/-- Both blocks lie in memory. -/
def MoveInside (machine : Machine) : Prop :=
  machine.moveSource.toNat + machine.moveCount.toNat ≤ machine.memory.total ∧
    machine.moveDest.toNat + machine.moveCount.toNat ≤ machine.memory.total

instance (machine : Machine) : Decidable machine.MoveInside := inferInstanceAs (Decidable (_ ∧ _))

/-- The machine with the block moved. -/
def moved (machine : Machine) : Machine :=
  machine.overwrite machine.moveDest.toNat
    (FlatMemory.read machine.memory.peek machine.moveSource.toNat machine.moveCount.toNat)

/-- The host grants the buffer, and no access takes the page after the end of memory. -/
def MoveDefined (host : Host) (machine : Machine) : Prop :=
  host.allocates machine.moveCount.toNat ∧ ¬ machine.EmptyAtEnd machine.moveSource machine.moveCount ∧
    ¬ (machine.moveSource.toNat ≤ machine.memory.total ∧ machine.EmptyAtEnd machine.moveDest machine.moveCount)

end Machine

instance (host : Host) (machine : Machine) : Decidable (machine.MoveDefined host) :=
  inferInstanceAs (Decidable (_ ∧ _))

/-! ## The procedure -/

theorem movs_apply (host : Host) (machine : Machine) :
    movs host machine =
      (allocate host machine.moveCount.toNat >>= fun _ =>
        readMemory machine.moveSource machine.moveCount >>= fun buffer =>
          writeMemory machine.moveDest buffer machine.moveCount) machine := rfl

theorem allocate_granted {size : ℕ} (granted : host.allocates size) (machine : Machine) :
    allocate host size machine = .ok () machine := by
  rw [allocate, if_pos granted]
  rfl

/-- A block that lies in memory and is not the empty one at its end begins in memory. -/
private theorem started_of_inside {address count : Word} (inside : address.toNat + count.toNat ≤ machine.memory.total)
    (apart : ¬ machine.EmptyAtEnd address count) : address.toNat < machine.memory.total := by
  by_contra beyond
  refine apart ⟨BitVec.eq_of_toNat_eq (show count.toNat = 0 by omega), by omega⟩

/-- The move of blocks that lie in memory. -/
theorem movs_inside (machine : Machine) (defined : machine.MoveDefined host) (inside : machine.MoveInside) :
    movs host machine = .ok () machine.moved := by
  obtain ⟨granted, source, dest⟩ := defined
  have sourceStarted := started_of_inside inside.1 source
  have destStarted := started_of_inside inside.2 fun empty => dest ⟨sourceStarted.le, empty⟩
  rw [movs_apply, bind_ok (allocate_granted granted machine), bind_ok (readMemory_started inside.1 sourceStarted)]
  exact writeMemory_started _ inside.2 destStarted FlatMemory.length_read

/-- A block outside memory is reported before anything is written. -/
theorem movs_outside (machine : Machine) (defined : machine.MoveDefined host) (outside : ¬ machine.MoveInside) :
    movs host machine = .error (.illegalMemoryAccess "Memory access out of bounds") machine := by
  obtain ⟨granted, source, -⟩ := defined
  have small : machine.moveCount.toNat < 2 ^ 63 := host.allocates_lt _ granted
  rw [movs_apply, bind_ok (allocate_granted granted machine)]
  by_cases sourceInside : machine.moveSource.toNat + machine.moveCount.toNat ≤ machine.memory.total
  · have destOutside := not_le.mp fun inside => outside ⟨sourceInside, inside⟩
    rw [bind_ok (readMemory_started sourceInside (started_of_inside sourceInside source))]
    exact writeMemory_outside _ small destOutside
  · rw [bind_error (readMemory_outside small (not_le.mp sourceInside))]

/-- The empty block at the end of memory subscripts a page that is not there. -/
theorem access_emptyAtEnd {address count : Word} (empty : machine.EmptyAtEnd address count) :
    readMemory address count machine = .error .undefined machine ∧
      ∀ source, writeMemory address source count machine = .error .undefined machine := by
  obtain ⟨rfl, atEnd⟩ := empty
  obtain rfl : address = machine.memory.paged.TotalMemory := BitVec.eq_of_toNat_eq atEnd
  constructor
  · rw [readMemory, PagedMemory.readMemory_end]
    rfl
  · intro source
    simp only [writeMemory, PagedMemory.writeMemory_end]
    rfl

/-- Without the buffer, or with an access after the end, the exception is none that is handled. -/
theorem movs_undefined (machine : Machine) (undefined : ¬ machine.MoveDefined host) :
    ∃ fault : Fault, fault.Lost ∧ movs host machine = .error fault machine := by
  rw [movs_apply]
  by_cases granted : host.allocates machine.moveCount.toNat
  swap
  · refine ⟨.badAllocation, by decide, bind_error ?_⟩
    rw [allocate, if_neg granted]
    rfl
  refine ⟨.undefined, by decide, ?_⟩
  rw [bind_ok (allocate_granted granted machine)]
  by_cases source : machine.EmptyAtEnd machine.moveSource machine.moveCount
  · exact bind_error (access_emptyAtEnd source).1
  · have dest : machine.moveSource.toNat ≤ machine.memory.total ∧
        machine.EmptyAtEnd machine.moveDest machine.moveCount := by
      by_contra other
      exact undefined ⟨granted, source, other⟩
    have zero : machine.moveCount.toNat = 0 := congrArg BitVec.toNat dest.2.1
    have inside : machine.moveSource.toNat + machine.moveCount.toNat ≤ machine.memory.total := by
      rw [zero]
      exact dest.1
    rw [bind_ok (readMemory_started inside (started_of_inside inside source))]
    exact (access_emptyAtEnd dest.2).2 _

/-! ## The instruction -/

/-- The instruction at `CB:IP` is `MOVS`. -/
def Machine.Moves (machine : Machine) (length : ℕ) : Prop :=
  ∃ arguments : Arguments, machine.decoded = .done (.movs, arguments) length

theorem Machine.Moves.executeBody {length : ℕ} (moves : machine.Moves length) :
    executeBody host machine = movs host (machine.fetched length) := by
  obtain ⟨arguments, decoded⟩ := moves
  have fetched := fetch_apply machine
  rw [decoded] at fetched
  rw [Sysdarft.executeBody, bind_ok fetched]
  change dispatch host ⟨Mnemonic.movs.opcode, arguments.width, arguments.operands⟩ _ = _
  rw [dispatch_registered rfl]

/-- The destination gets the bytes that the source had, and nothing else changes but the instruction pointer; or,
with a block outside memory, the illegal access is raised and memory is as before. -/
structure Memmove (host : Host) (machine : Machine) (length : ℕ) : Prop where
  moves : machine.MoveInside → ∃ after, execute host machine = .ok () after ∧
    (∀ offset < machine.moveCount.toNat, after.memory.peek (machine.moveDest.toNat + offset) =
      machine.memory.peek (machine.moveSource.toNat + offset)) ∧
    (∀ address, address < machine.moveDest.toNat ∨ machine.moveDest.toNat + machine.moveCount.toNat ≤ address →
      after.memory.peek address = machine.memory.peek address) ∧
    after.registers = { machine.registers with
      InstructionPointer := machine.registers.InstructionPointer + BitVec.ofNat 64 length }
  rejects : ¬ machine.MoveInside → ∃ message stopped,
    executeBody host machine = .error (.illegalMemoryAccess message) stopped ∧
    stopped.memory = machine.memory ∧ Raises host machine 0x08

/-- The cells of a moved block. -/
theorem Machine.peek_moved (machine : Machine) (inside : machine.MoveInside) (address : ℕ) :
    machine.moved.memory.peek address =
      FlatMemory.write machine.memory.peek machine.moveDest.toNat
        (FlatMemory.read machine.memory.peek machine.moveSource.toNat machine.moveCount.toNat) address :=
  congrFun (GuestMemory.peek_overwrite machine.memory (by rw [FlatMemory.length_read]; exact inside.2)) address

theorem memmove_iff {length : ℕ} (moves : machine.Moves length) :
    Memmove host machine length ↔ machine.MoveDefined host := by
  constructor
  · intro memmove
    by_contra undefined
    obtain ⟨fault, lost, failed⟩ := movs_undefined (machine.fetched length) undefined
    rw [← moves.executeBody] at failed
    by_cases inside : machine.MoveInside
    · obtain ⟨after, done, -⟩ := memmove.moves inside
      cases (execute_lost failed lost).symm.trans done
    · obtain ⟨message, stopped, rejected, -⟩ := memmove.rejects inside
      cases failed.symm.trans rejected
      exact absurd lost.1 nofun
  · intro defined
    constructor
    · intro inside
      have done : executeBody host machine = .ok () (machine.fetched length).moved := by
        rw [moves.executeBody]
        exact movs_inside (machine.fetched length) defined inside
      refine ⟨_, execute_completed done, fun offset below => ?_, fun address apart => ?_, rfl⟩
      · rw [Machine.peek_moved (machine.fetched length) inside]
        have written : offset < (FlatMemory.read machine.memory.peek machine.moveSource.toNat
            machine.moveCount.toNat).length := by rw [FlatMemory.length_read]; exact below
        refine (FlatMemory.write_inside written).trans ?_
        simp [FlatMemory.read]
      · rw [Machine.peek_moved (machine.fetched length) inside]
        exact FlatMemory.write_outside (by rw [FlatMemory.length_read]; exact apart)
    · intro outside
      have failed : executeBody host machine =
          .error (.illegalMemoryAccess "Memory access out of bounds") (machine.fetched length) := by
        rw [moves.executeBody]
        exact movs_outside (machine.fetched length) defined outside
      exact ⟨_, _, failed, rfl, _, _, failed, rfl, execute_answered failed rfl⟩

/-- A powered-on machine whose BIOS starts with `MOVS`, set to a source, a destination and a count. -/
def Machine.shifting (source dest count : Word) : Machine :=
  let loaded := Machine.powerOn.overwrite BIOS_START [Mnemonic.movs.opcode]
  { loaded with
    registers := { loaded.registers.store count FER3 with ExtendedPointer := source, DataPointer := dest } }

/-- Three bytes moved up by one over themselves, and three bytes at the end of memory. -/
theorem memmove_shifting :
    Memmove Host.ample (Machine.shifting 0x500 0x501 3) 1 ∧ Memmove Host.ample (Machine.shifting 0x500 0xFFFFE 3) 1 :=
  ⟨(memmove_iff ⟨⟨0, []⟩, rfl⟩).mpr (by decide), (memmove_iff ⟨⟨0, []⟩, rfl⟩).mpr (by decide)⟩

/-- `MOVS` of no bytes from the end of memory raises nothing and does not return. -/
theorem not_memmove : ¬ ∀ (host : Host) (machine : Machine) (length : ℕ), machine.Moves length →
    machine.moveCount.toNat ≤ machine.memory.total → Memmove host machine length := by
  intro every
  have moves : (Machine.shifting 0x100000 0 0).Moves 1 := ⟨⟨0, []⟩, rfl⟩
  have memmove := every Host.ample _ 1 moves (by decide)
  exact ((memmove_iff moves).mp memmove).2.1 ⟨rfl, rfl⟩

end Sysdarft
