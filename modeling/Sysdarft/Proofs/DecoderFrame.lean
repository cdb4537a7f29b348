import Sysdarft.Model.Executor
import Sysdarft.Proofs.MachineMemory

/-! # What fetching an instruction leaves alone

Decoding reads code bytes and registers and moves the instruction pointer. Everything else, the
whole machine apart from the instruction pointer, is as before, whether decoding succeeds or throws.
-/

namespace Sysdarft

open Effects

/-- The machine without its instruction pointer. -/
def Machine.withoutIp (machine : Machine) : Machine :=
  { machine with registers := { machine.registers with InstructionPointer := 0 } }

theorem keeps_readMemory {τ : Type} {view : Machine → τ} (address size : Word) :
    Keeps view (readMemory address size) := by
  intro machine
  rw [readMemory]
  cases machine.memory.paged.readMemory address size <;> rfl

theorem keeps_asStackOverflow {τ α : Type} {view : Machine → τ} {access : CPU α} (kept : Keeps view access) :
    Keeps view (asStackOverflow access) := by
  intro machine
  have start := kept machine
  rw [asStackOverflow, tryCatch_apply]
  cases result : access machine with
  | ok a after => rw [result] at start; exact start
  | error fault after =>
    rw [result] at start
    cases fault <;> exact start

theorem keeps_popMemoryFrom {τ : Type} {view : Machine → τ} (base offset size : Word) :
    Keeps view (popMemoryFrom base offset size) :=
  keeps_bind (keeps_asStackOverflow (keeps_readMemory _ _)) fun _ => keeps_pure _

theorem keeps_getRegisters {τ : Type} {view : Machine → τ} : Keeps view getRegisters :=
  keeps_bind keeps_get fun _ => keeps_pure _

theorem keeps_popCode (size : ℕ) : Keeps Machine.withoutIp (popCode size) :=
  keeps_bind keeps_getRegisters fun _ => keeps_bind (keeps_popMemoryFrom _ _ _) fun _ =>
    keeps_bind (fun _ => rfl) fun _ => keeps_pure _

theorem keeps_popCode8 : Keeps Machine.withoutIp popCode8 :=
  keeps_bind (keeps_popCode 1) fun _ => keeps_pure _

theorem keeps_popCodeWidth (width : Width) : Keeps Machine.withoutIp (popCodeWidth width) :=
  keeps_bind (keeps_popCode _) fun _ => keeps_pure _

theorem keeps_selectRegister {τ : Type} {view : Machine → τ} (widthBCD index : Byte) :
    Keeps view (selectRegister widthBCD index) := by
  unfold selectRegister
  split
  · exact keeps_pure _
  · exact keeps_ite (keeps_throw _) (keeps_throw _)

theorem keeps_accessRegister {τ : Type} {view : Machine → τ} (widthBCD index : Byte) :
    Keeps view (accessRegister widthBCD index) :=
  keeps_bind (keeps_selectRegister _ _) fun _ => keeps_bind keeps_getRegisters fun _ => keeps_pure _

theorem keeps_decodeRegister : Keeps Machine.withoutIp decodeRegister :=
  keeps_bind keeps_popCode8 fun _ => keeps_bind keeps_popCode8 fun _ => keeps_pure _

theorem keeps_decodeConstant : Keeps Machine.withoutIp decodeConstant := by
  refine keeps_bind keeps_popCode8 fun code => ?_
  split
  · exact keeps_bind (keeps_popCodeWidth _) fun _ => keeps_pure _
  · exact keeps_throw _

theorem keeps_decodeParameter : Keeps Machine.withoutIp decodeParameter :=
  keeps_bind keeps_popCode8 fun _ =>
    keeps_ite (keeps_bind keeps_decodeRegister fun _ => keeps_accessRegister _ _)
      (keeps_ite (keeps_bind keeps_decodeConstant fun _ => keeps_pure _) (keeps_throw _))

theorem keeps_decodeSignedParameter : Keeps Machine.withoutIp decodeSignedParameter := by
  refine keeps_bind keeps_popCode8 fun _ => keeps_ite ?_ (keeps_ite ?_ (keeps_throw _))
  · refine keeps_bind keeps_decodeRegister fun _ => keeps_bind (keeps_accessRegister _ _) fun _ => ?_
    split
    · exact keeps_pure _
    · exact keeps_throw _
  · exact keeps_bind keeps_decodeConstant fun _ => keeps_pure _

theorem keeps_decodeMemory : Keeps Machine.withoutIp decodeMemory := by
  refine keeps_bind keeps_popCode8 fun _ => keeps_bind keeps_decodeParameter fun _ =>
    keeps_bind keeps_decodeParameter fun _ => keeps_bind keeps_decodeSignedParameter fun _ =>
    keeps_bind keeps_popCode8 fun _ => ?_
  split
  · exact keeps_throw _
  · split
    · exact keeps_pure _
    · exact keeps_throw _

theorem keeps_decodeOperand : Keeps Machine.withoutIp decodeOperand :=
  keeps_bind keeps_popCode8 fun _ =>
    keeps_ite (keeps_bind keeps_decodeRegister fun _ => keeps_pure _)
      (keeps_ite (keeps_bind keeps_decodeConstant fun _ => keeps_pure _)
        (keeps_ite (keeps_bind keeps_decodeMemory fun _ => keeps_pure _) (keeps_throw _)))

theorem keeps_decodeOperands (count : ℕ) : Keeps Machine.withoutIp (decodeOperands count) := by
  induction count with
  | zero => exact keeps_pure _
  | succ count ih => exact keeps_bind keeps_decodeOperand fun _ => keeps_bind ih fun _ => keeps_pure _

theorem keeps_popInstruction : Keeps Machine.withoutIp popInstruction := by
  refine keeps_bind keeps_popCode8 fun _ => ?_
  split
  · exact keeps_throw _
  · refine keeps_bind (keeps_ite (keeps_bind keeps_popCode8 fun _ => ?_) (keeps_pure _)) fun _ =>
      keeps_bind (keeps_decodeOperands _) fun _ => keeps_pure _
    split
    · exact keeps_pure _
    · exact keeps_throw _

/-- The machine without its instruction pointer and the bookkeeping of `execute`. -/
def Machine.core (machine : Machine) : Machine :=
  { machine.withoutIp with ip_before_pop := 0, current_routine_pop_len := 0, Int3DebugInterrupt := false }

theorem keeps_fetch : Keeps Machine.core fetch := by
  refine keeps_bind (fun _ => rfl) fun _ => keeps_bind ?_ fun _ => keeps_bind (fun _ => rfl) fun _ => keeps_pure _
  exact keeps_part keeps_popInstruction fun machine =>
    { machine with ip_before_pop := 0, current_routine_pop_len := 0, Int3DebugInterrupt := false }

/-- Registers other than the instruction pointer, memory, display and devices after a fetch. -/
theorem fetch_core {machine after : Machine} {instruction : ActiveInstruction}
    (fetched : fetch machine = .ok instruction after) : after.core = machine.core := by
  have kept := keeps_fetch machine
  rwa [fetched] at kept

end Sysdarft
