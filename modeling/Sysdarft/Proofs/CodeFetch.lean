import Sysdarft.Model.Executor
import Sysdarft.Proofs.MachineMemory

/-! # Reading code bytes

`Machine.Code` says which bytes lie at `CB:IP`. The pops of the decoder consume them from the front
and move the instruction pointer past them, which is `Machine.advance`.
-/

namespace Sysdarft

open Effects

namespace Machine

/-- The address of the next code byte. -/
def codeAddress (machine : Machine) : ℕ :=
  (machine.registers.CodeBase + machine.registers.InstructionPointer).toNat

/-- The bytes lie at `CB:IP`, inside memory. -/
def Code (machine : Machine) (bytes : List Byte) : Prop :=
  machine.codeAddress + bytes.length ≤ machine.memory.total ∧
    FlatMemory.read machine.memory.peek machine.codeAddress bytes.length = bytes

/-- Move the instruction pointer. -/
def advance (machine : Machine) (count : ℕ) : Machine :=
  { machine with
    registers :=
      { machine.registers with InstructionPointer := machine.registers.InstructionPointer + BitVec.ofNat 64 count } }

variable {machine : Machine}

@[simp] theorem advance_zero : machine.advance 0 = machine := by
  simp [advance]

theorem advance_advance (first second : ℕ) :
    (machine.advance first).advance second = machine.advance (first + second) := by
  simp only [advance, BitVec.add_assoc, BitVec.ofNat_add]

theorem codeAddress_advance (count : ℕ) (inside : machine.codeAddress + count ≤ machine.memory.total) :
    (machine.advance count).codeAddress = machine.codeAddress + count := by
  have bound := machine.memory.addressable
  simp only [codeAddress, GuestMemory.total, advance] at inside ⊢
  rw [← BitVec.add_assoc, BitVec.toNat_add, BitVec.toNat_ofNat]
  omega

/-- The rest of the code follows at the advanced instruction pointer. -/
theorem Code.rest {first second : List Byte} (code : machine.Code (first ++ second)) :
    (machine.advance first.length).Code second := by
  obtain ⟨inside, content⟩ := code
  rw [List.length_append] at inside content
  have address := codeAddress_advance first.length (show machine.codeAddress + first.length ≤ _ by omega)
  refine ⟨by rw [address]; exact (Nat.add_assoc ..).trans_le inside, ?_⟩
  rw [FlatMemory.read_add] at content
  rw [address]
  exact (List.append_inj content (FlatMemory.length_read ..)).2

/-- Only the place and memory decide about the code. -/
theorem Code.of_same {other : Machine} {bytes : List Byte} (code : machine.Code bytes)
    (place : other.codeAddress = machine.codeAddress) (memory : other.memory = machine.memory) : other.Code bytes := by
  rw [Code, place, memory]
  exact code

theorem Code.whole {bytes : List Byte} (code : machine.Code bytes) : machine.Code (bytes ++ []) := by
  rwa [List.append_nil]

/-- The code after one byte. -/
theorem Code.tail {byte : Byte} {rest : List Byte} (code : machine.Code (byte :: rest)) : (machine.advance 1).Code rest := by
  rw [← List.singleton_append] at code
  exact code.rest

theorem Code.front {first second : List Byte} (code : machine.Code (first ++ second)) : machine.Code first := by
  obtain ⟨inside, content⟩ := code
  rw [List.length_append] at inside content
  refine ⟨by omega, ?_⟩
  rw [FlatMemory.read_add] at content
  exact (List.append_inj content (FlatMemory.length_read ..)).1

theorem Code.append {first second : List Byte} (code : machine.Code first)
    (code' : (machine.advance first.length).Code second) : machine.Code (first ++ second) := by
  obtain ⟨inside, content⟩ := code
  obtain ⟨inside', content'⟩ := code'
  rw [codeAddress_advance _ inside] at inside' content'
  refine ⟨by rw [List.length_append, ← Nat.add_assoc]; exact inside', ?_⟩
  rw [List.length_append, FlatMemory.read_add, content]
  exact congrArg (first ++ ·) content'

end Machine

variable {machine : Machine}

/-- A pop takes the bytes at the instruction pointer, or ends in the exception of the stack. -/
theorem popCode_apply (machine : Machine) {size : ℕ} (nonempty : 0 < size) (small : size < 2 ^ 63) :
    popCode size machine =
      if machine.codeAddress + size ≤ machine.memory.total then
        .ok (FlatMemory.read machine.memory.peek machine.codeAddress size) (machine.advance size)
      else .error .stackOverflow machine := by
  have count : (BitVec.ofNat 64 size).toNat = size := by
    rw [BitVec.toNat_ofNat, Nat.mod_eq_of_lt (by omega)]
  by_cases inside : machine.codeAddress + size ≤ machine.memory.total
  · have popped := popMemoryFrom_inside machine machine.registers.CodeBase machine.registers.InstructionPointer
      (BitVec.ofNat 64 size) (by rw [count]; exact nonempty) (by rw [count]; exact inside)
    rw [count] at popped
    simp only [popCode, getRegisters, bind_apply, get_apply, pure_apply, popped, modifyRegisters, modify_apply,
      if_pos inside]
    rfl
  · have failed := popMemoryFrom_outside machine machine.registers.CodeBase machine.registers.InstructionPointer
      (BitVec.ofNat 64 size) (by rw [count]; exact small) (by rw [count]; exact not_le.mp inside)
    simp only [popCode, getRegisters, bind_apply, get_apply, pure_apply, failed, if_neg inside]

theorem popCode_ok (data : List Byte) {rest : List Byte} (code : machine.Code (data ++ rest)) (nonempty : 0 < data.length) :
    popCode data.length machine = .ok data (machine.advance data.length) := by
  obtain ⟨inside, content⟩ := code.front
  have bound := machine.memory.addressable
  have small : data.length < 2 ^ 63 := by
    simp only [GuestMemory.total] at inside
    omega
  rw [popCode_apply machine nonempty small, if_pos inside, content]

theorem popCode8_ok {byte : Byte} {rest : List Byte} (code : machine.Code (byte :: rest)) :
    popCode8 machine = .ok byte (machine.advance 1) := by
  have popped := popCode_ok [byte] code Nat.one_pos
  rw [List.length_singleton] at popped
  simp only [popCode8, bind_apply, popped, pure_apply, LittleEndian.value]
  congr 1
  exact BitVec.eq_of_toNat_eq (by simp)

/-- A successful pop found its bytes in memory. -/
theorem popCode_inv {size : ℕ} {data : List Byte} {after : Machine} (popped : popCode size machine = .ok data after)
    (nonempty : 0 < size) (small : size < 2 ^ 63) :
    data.length = size ∧ machine.Code data ∧ after = machine.advance size := by
  rw [popCode_apply machine nonempty small] at popped
  split_ifs at popped with inside
  cases popped
  have length : (FlatMemory.read machine.memory.peek machine.codeAddress size).length = size := FlatMemory.length_read ..
  refine ⟨length, ?_, rfl⟩
  rw [Machine.Code, length]
  exact ⟨inside, rfl⟩

theorem popCode8_inv {byte : Byte} {after : Machine} (popped : popCode8 machine = .ok byte after) :
    machine.Code [byte] ∧ after = machine.advance 1 := by
  obtain ⟨data, middle, popped, finished⟩ := bind_eq_ok.mp popped
  cases finished
  obtain ⟨length, code, rfl⟩ := popCode_inv popped Nat.one_pos (by decide)
  obtain ⟨byte, rfl⟩ := List.length_eq_one_iff.mp length
  refine ⟨?_, rfl⟩
  simpa [LittleEndian.value] using code

end Sysdarft
