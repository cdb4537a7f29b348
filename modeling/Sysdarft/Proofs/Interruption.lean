import Sysdarft.Proofs.MachineMemory

/-! # Delivery of interruptions

`delivered` and `redirected` are the two states an interruption without a built-in handler can lead
to: one frame with the old register file pushed and control at the vector, or nothing pushed and
control at the stack overflow vector. `deliver` is shown to compute them, and `doInterruption`
follows by its mask test.
-/

namespace Sysdarft

open Effects

namespace Machine

variable (machine : Machine)

/-- The vector of an interruption, as the table in memory has it. -/
def vector (code : ℕ) : InterruptionPointer where
  InterruptionTargetCodeBase :=
    LittleEndian.wordAt (FlatMemory.read machine.memory.peek (INTERRUPTION_VECTOR + 16 * code) 16) 0
  InterruptionTargetInstructionPointer :=
    LittleEndian.wordAt (FlatMemory.read machine.memory.peek (INTERRUPTION_VECTOR + 16 * code) 16) 1

/-- Where the frame of an interruption goes. -/
def frameAddress : ℕ :=
  (machine.registers.StackBase + (machine.registers.StackPointer - 256)).toNat

/-- The frame of an interruption fits the stack. -/
def FrameFits : Prop :=
  machine.HasRoom machine.registers.StackBase machine.registers.StackPointer 256

instance : Decidable machine.FrameFits := inferInstanceAs (Decidable (machine.HasRoom ..))

/-- Masked, with control at a vector. -/
def jumped (registers : Registers) (location : InterruptionPointer) : Registers :=
  { registers with
    FlagRegister := setFlag registers.FlagRegister .interruptionMask true
    CodeBase := location.InterruptionTargetCodeBase
    InstructionPointer := location.InterruptionTargetInstructionPointer }

/-- The state after the delivery of an interruption. -/
def delivered (code : ℕ) : Machine :=
  { machine.overwrite machine.frameAddress machine.registers.image with
    registers := jumped { machine.registers with StackPointer := machine.registers.StackPointer - 256 }
      (machine.vector code) }

/-- The state after the delivery failed for lack of stack. -/
def redirected : Machine :=
  { machine with registers := jumped machine.registers (machine.vector 7) }

end Machine

variable {machine : Machine}

theorem doInterruptionLookup_ok (machine : Machine) {code : Word} (known : code.toNat ≤ 0xFF) :
    doInterruptionLookup code machine = .ok (machine.vector code.toNat) machine := by
  have sixteen : (16 : Word).toNat = 16 := rfl
  have offset : (BitVec.ofNat 64 INTERRUPTION_VECTOR + code * 16).toNat = INTERRUPTION_VECTOR + 16 * code.toNat := by
    rw [BitVec.toNat_add, BitVec.toNat_mul, BitVec.toNat_ofNat, sixteen]
    simp only [INTERRUPTION_VECTOR]
    omega
  have legal : ¬ BitVec.ofNat 64 INTERRUPTION_VEC_ED ≤ BitVec.ofNat 64 INTERRUPTION_VECTOR + code * 16 := by
    rw [BitVec.le_def, offset, BitVec.toNat_ofNat]
    simp only [INTERRUPTION_VECTOR, INTERRUPTION_VEC_ED]
    omega
  have inside : (BitVec.ofNat 64 INTERRUPTION_VECTOR + code * 16).toNat + (16 : Word).toNat ≤
      machine.memory.total := by
    have holds : BIOS_START ≤ machine.memory.total := machine.memory.holdsBios
    rw [offset, sixteen]
    simp only [INTERRUPTION_VECTOR, BIOS_START] at holds ⊢
    omega
  simp only [doInterruptionLookup, if_neg legal, bind_apply, readMemory_inside inside (by decide), pure_apply, offset,
    sixteen]
  rfl

theorem doPreserveCpuState_room (fits : machine.FrameFits) :
    doPreserveCpuState machine = .ok ()
      { machine.overwrite machine.frameAddress machine.registers.image with
        registers := { machine.registers with StackPointer := machine.registers.StackPointer - 256 } } := by
  have length := machine.registers.length_image
  have pushed := pushMemoryTo_room machine.registers.StackBase machine.registers.StackPointer machine.registers.image
    (by omega) (by omega) (by rw [length]; exact fits)
  simp only [doPreserveCpuState, getRegisters, bind_apply, get_apply, pure_apply, pushed, modifyRegisters, modify_apply,
    length]
  rfl

theorem doPreserveCpuState_full (full : ¬ machine.FrameFits) :
    doPreserveCpuState machine = .error .stackOverflow machine := by
  have length := machine.registers.length_image
  have failed := pushMemoryTo_full machine.registers.StackBase machine.registers.StackPointer machine.registers.image
    (by omega) (by rw [length]; exact full)
  simp only [doPreserveCpuState, getRegisters, bind_apply, get_apply, pure_apply, failed]

theorem doStackoverflow_ok : doStackoverflow machine = .ok () machine.redirected := by
  simp only [doStackoverflow, bind_apply, doInterruptionLookup_ok machine (show (0x07 : Word).toNat ≤ 0xFF by decide),
    setMask, getRegisters, get_apply, pure_apply, storeFlags, doJumpTable, modifyRegisters, modify_apply]
  rfl

/-- Delivery with room: one frame, then the vector read before the push. -/
theorem deliver_room {code : Word} (known : code.toNat ≤ 0xFF) (fits : machine.FrameFits) :
    deliver code machine.registers.FlagRegister machine =
      .ok (setFlag machine.registers.FlagRegister .interruptionMask true) (machine.delivered code.toNat) := by
  simp only [deliver, bind_apply, doInterruptionLookup_ok _ known, tryCatch_apply, doPreserveCpuState_room fits, maskFg,
    storeFlags, doJumpTable, modifyRegisters, modify_apply, pure_apply]
  rfl

/-- Delivery without room: the stack overflow vector, and the running instruction is abandoned. -/
theorem deliver_full {code : Word} (known : code.toNat ≤ 0xFF) (full : ¬ machine.FrameFits) :
    deliver code machine.registers.FlagRegister machine = .error .abort machine.redirected := by
  simp only [deliver, bind_apply, doInterruptionLookup_ok _ known, tryCatch_apply, doPreserveCpuState_full full,
    doStackoverflow_ok, maskFg, storeFlags, modifyRegisters, modify_apply, pure_apply, throw_apply]
  rfl

/-- A delivered interruption changes the frame bytes and nothing else in memory. -/
theorem peek_delivered (fits : machine.FrameFits) (code : ℕ) :
    (machine.delivered code).memory.peek =
      FlatMemory.write machine.memory.peek machine.frameAddress machine.registers.image :=
  GuestMemory.peek_overwrite _ (by rw [Registers.length_image]; exact fits.2)

/-- A software interruption is held back by the mask. -/
def Held (code : Word) (machine : Machine) : Prop :=
  0x1F < code.toNat ∧ getFlag machine.registers.FlagRegister .interruptionMask = true

instance (code : Word) (machine : Machine) : Decidable (Held code machine) :=
  inferInstanceAs (Decidable (_ ∧ _))

theorem inTable {code : Word} (known : code.toNat ≤ 0xFF) :
    ¬ BitVec.ofNat 64 MAX_INTERRUPTION_ENTRY < code := by
  rw [BitVec.lt_def, BitVec.toNat_ofNat]
  simp only [MAX_INTERRUPTION_ENTRY, INTERRUPTION_VEC_ED, INTERRUPTION_VECTOR]
  omega

private theorem hardware_iff (code : Word) : code ≤ 0x1F ↔ code.toNat ≤ 0x1F := by
  rw [BitVec.le_def]
  rfl

theorem doInterruption_held {host : Host} {code : Word} (legal : ¬ BitVec.ofNat 64 MAX_INTERRUPTION_ENTRY < code)
    (held : Held code machine) : doInterruption host code machine = .ok () machine := by
  have software : ¬ code ≤ 0x1F := by
    rw [hardware_iff]
    exact not_le.mpr held.1
  simp only [doInterruption, if_neg legal, bind_apply, getRegisters, get_apply, pure_apply, if_neg software,
    deliverUnlessMasked, held.2, ↓reduceIte]

/-- Without a handler of its own an interruption is `deliver`, once: after a delivery inside the switch
the captured flags are masked, so the second delivery is skipped. -/
private theorem doInterruption_eq {host : Host} {code : Word} (known : code.toNat ≤ 0xFF)
    (plain : builtInHandler host code = none) (open_ : ¬ Held code machine) :
    doInterruption host code machine =
      match deliver code machine.registers.FlagRegister machine with
      | .ok _ after => .ok () after
      | .error fault after => .error fault after := by
  have masked : getFlag (setFlag machine.registers.FlagRegister .interruptionMask true) .interruptionMask = true := by
    rw [getFlag_setFlag, if_pos rfl]
  simp only [doInterruption, if_neg (inTable known), bind_apply, getRegisters, get_apply, pure_apply]
  by_cases hardware : code ≤ 0x1F
  · simp only [if_pos hardware, plain, bind_apply]
    by_cases fits : machine.FrameFits
    · simp only [deliver_room known fits, deliverUnlessMasked, masked, ↓reduceIte, pure_apply]
    · simp only [deliver_full known fits]
  · have unmasked : getFlag machine.registers.FlagRegister .interruptionMask = false := by
      by_contra mask
      exact open_ ⟨not_le.mp fun small => hardware ((hardware_iff code).mpr small), by simpa using mask⟩
    simp only [if_neg hardware, deliverUnlessMasked, unmasked, Bool.false_eq_true, ↓reduceIte, bind_apply, pure_apply]
    cases deliver code machine.registers.FlagRegister machine <;> rfl

theorem doInterruption_room (host : Host) {code : Word} (known : code.toNat ≤ 0xFF)
    (plain : builtInHandler host code = none) (open_ : ¬ Held code machine) (fits : machine.FrameFits) :
    doInterruption host code machine = .ok () (machine.delivered code.toNat) := by
  rw [doInterruption_eq known plain open_, deliver_room known fits]

theorem doInterruption_full {host : Host} {code : Word} (known : code.toNat ≤ 0xFF)
    (plain : builtInHandler host code = none) (open_ : ¬ Held code machine) (full : ¬ machine.FrameFits) :
    doInterruption host code machine = .error .abort machine.redirected := by
  rw [doInterruption_eq known plain open_, deliver_full known full]

/-- The breakpoint interruption pushes the same frame and also notes the breakpoint. -/
theorem doInterruption_debug {host : Host} (fits : machine.FrameFits) :
    doInterruption host 0x03 machine = .ok () { machine.delivered 3 with Int3DebugInterrupt := true } := by
  have fits' : Machine.FrameFits { machine with Int3DebugInterrupt := true } := fits
  have known : (0x03 : Word).toNat ≤ 0xFF := by decide
  have lookup := doInterruptionLookup_ok { machine with Int3DebugInterrupt := true } known
  have handler : builtInHandler host 0x03 = some doInterruptionDebug := rfl
  simp only [doInterruption, if_neg (inTable known), bind_apply, getRegisters, get_apply, pure_apply,
    if_pos (show (0x03 : Word) ≤ 0x1F by decide), handler, doInterruptionDebug, modify_apply, lookup,
    doPreserveCpuState_room fits', setMask, storeFlags, doJumpTable, modifyRegisters]
  rfl

/-- Interruption delivery is exact. Under the mask a software interruption changes nothing. Otherwise,
with room, the frame holds the complete old register file, the stack pointer drops by 256, the mask
is set and control is at the vector as it was before the push; without room, memory and stack pointer
are as before, the mask is set, control is at vector 7 and the instruction is aborted. -/
theorem doInterruption_exact (host : Host) (machine : Machine) (code : Word) (known : code.toNat ≤ 0xFF)
    (plain : builtInHandler host code = none) :
    (Held code machine → doInterruption host code machine = .ok () machine) ∧
    (¬ Held code machine →
      (machine.FrameFits →
        doInterruption host code machine = .ok () (machine.delivered code.toNat) ∧
        (machine.delivered code.toNat).memory.peek =
          FlatMemory.write machine.memory.peek machine.frameAddress machine.registers.image) ∧
      (¬ machine.FrameFits → doInterruption host code machine = .error .abort machine.redirected)) :=
  ⟨doInterruption_held (inTable known), fun open_ =>
    ⟨fun fits => ⟨doInterruption_room host known plain open_ fits, peek_delivered fits code.toNat⟩,
      doInterruption_full known plain open_⟩⟩

/-- The machine as powered on, with a stack of 4096 bytes. -/
def Machine.withStack : Machine :=
  { Machine.powerOn with registers := { Machine.powerOn.registers with StackPointer := 0x1000 } }

theorem doInterruption_exact_withStack :
    Machine.withStack.FrameFits ∧
      doInterruption Host.ample 0x20 Machine.withStack = .ok () (Machine.withStack.delivered 0x20) ∧
      doInterruption Host.ample 0x06 Machine.powerOn = .error .abort Machine.powerOn.redirected :=
  ⟨by decide,
    (((doInterruption_exact Host.ample Machine.withStack 0x20 (by decide) rfl).2 (by decide)).1 (by decide)).1,
    ((doInterruption_exact Host.ample Machine.powerOn 0x06 (by decide) rfl).2 (by decide)).2 (by decide)⟩

end Sysdarft
