import Sysdarft.Proofs.Arithmetic
import Sysdarft.Proofs.DecoderFormat
import Sysdarft.Proofs.OperandFrame

/-! # Conditional jumps

One step of `execute` on a conditional jump or `loop`, from its bytes at `CB:IP`. The jumps that are
registered in `ExecutorMap` do what the manual says of them. `jc`, `jnc`, `jo` and `jno` have a mnemonic
and a procedure, but the map has no entry for them, and the failed lookup leaves `execute`.
-/

namespace Sysdarft

open Effects

inductive ConditionalJump where
  | je | jne | jb | jl | jbe | jle | jc | jnc | jo | jno | loop
deriving DecidableEq, Repr

/-- The manual describes `JLE` twice: the heading says less or equal, the sentence after it repeats the
flags of `JBE`. -/
inductive Description where
  | heading | sentence
deriving DecidableEq, Repr

namespace ConditionalJump

def mnemonic : ConditionalJump → Mnemonic
  | je => .je
  | jne => .jne
  | jb => .jb
  | jl => .jl
  | jbe => .jbe
  | jle => .jle
  | jc => .jc
  | jnc => .jnc
  | jo => .jo
  | jno => .jno
  | loop => .loop

/-- The condition in the manual. -/
def documented (description : Description) (jump : ConditionalJump) (registers : Registers) : Bool :=
  let flag := getFlag registers.FlagRegister
  match jump with
  | je => flag .equal
  | jne => !flag .equal
  | jb => flag .largerThan
  | jl => flag .lessThan
  | jbe => flag .equal || flag .largerThan
  | jle => match description with
    | .heading => flag .equal || flag .lessThan
    | .sentence => flag .equal || flag .largerThan
  | jc => flag .carry
  | jnc => !flag .carry
  | jo => flag .overflow
  | jno => !flag .overflow
  | loop => registers.load FER3 - 1 != 0

/-- The jumps on the carry and the overflow have no procedure in `ExecutorMap`. -/
def Registered (jump : ConditionalJump) : Prop := jump ≠ jc ∧ jump ≠ jnc ∧ jump ≠ jo ∧ jump ≠ jno

instance (jump : ConditionalJump) : Decidable jump.Registered :=
  inferInstanceAs (Decidable (_ ∧ _))

/-- The encoded instruction. -/
def code (jump : ConditionalJump) (target1 target2 : Format.Target) : Format.Instruction where
  mnemonic := jump.mnemonic
  width := none
  operands := [target1, target2]
  widthed := by cases jump <;> rfl
  counted := by cases jump <;> rfl

/-- What `loop` does to the registers, taken or not. -/
def counted (jump : ConditionalJump) (registers : Registers) : Registers :=
  match jump with
  | loop => registers.store (registers.load FER3 - 1) FER3
  | _ => registers

/-- The registers after the step: the jump when the condition holds, else the following instruction. -/
def result (jump : ConditionalJump) (condition : Bool) (registers : Registers) (next base ip : Word) : Registers :=
  jump.counted
    (if condition then { registers with CodeBase := base, InstructionPointer := ip }
      else { registers with InstructionPointer := next })

end ConditionalJump

/-- One step does what the manual says: `CB:IP` is the pair of the operands or the following instruction,
and apart from the bookkeeping of `execute` nothing else changes. -/
def JumpsAsDocumented (host : Host) (description : Description) (jump : ConditionalJump) (target1 target2 : Format.Target)
    (base ip : Word) (machine : Machine) : Prop :=
  let next := machine.registers.InstructionPointer + BitVec.ofNat 64 (jump.code target1 target2).bytes.length
  let expected := jump.result (jump.documented description machine.registers) machine.registers next base ip
  ∃ after, execute host machine = .ok () after ∧ after.registers = expected ∧
    after.core = { machine with registers := expected }.core

variable {host : Host} {jump : ConditionalJump} {machine : Machine} {operand1 operand2 : Operand} {base ip : Word}

/-! ## Procedures -/

theorem jmp_apply (width : Byte) (known : operand1.getVal machine = .ok base machine)
    (known' : operand2.getVal machine = .ok ip machine) :
    jmp { width := width, operands := [operand1, operand2] } machine =
      .ok () { machine with
        registers := { machine.registers with CodeBase := base, InstructionPointer := ip } } := by
  simp only [jmp, Arguments.getVal, Arguments.operand, List.getElem?_cons_zero, List.getElem?_cons_succ, pure_bind,
    bind_apply, known, known', setCodeAddress, modifyRegisters, modify_apply]

theorem jumpIf_apply (condition : Word → Bool) (width : Byte) (known : operand1.getVal machine = .ok base machine)
    (known' : operand2.getVal machine = .ok ip machine) :
    jumpIf condition { width := width, operands := [operand1, operand2] } machine =
      .ok () { machine with
        registers :=
          if condition machine.registers.FlagRegister then
            { machine.registers with CodeBase := base, InstructionPointer := ip }
          else machine.registers } := by
  rw [jumpIf, getRegisters]
  simp only [bind_apply, get_apply, pure_apply]
  cases condition machine.registers.FlagRegister with
  | true => exact jmp_apply width known known'
  | false => rfl

theorem loop_apply (width : Byte) (known : operand1.getVal machine = .ok base machine)
    (known' : operand2.getVal machine = .ok ip machine) :
    loop { width := width, operands := [operand1, operand2] } machine =
      .ok () { machine with
        registers := ConditionalJump.loop.result (machine.registers.load FER3 - 1 != 0) machine.registers
          machine.registers.InstructionPointer base ip } := by
  have loaded : loadRegister FER3 machine = .ok (machine.registers.load FER3) machine := rfl
  rw [loop, bind_ok loaded]
  by_cases last : machine.registers.load FER3 - 1 = 0
  · simp only [last, ne_eq, not_true_eq_false, if_false, bne_self_eq_false, ConditionalJump.result,
      ConditionalJump.counted]
    simp only [storeRegister, modifyRegisters, modify_apply, last, Bool.false_eq_true, if_false]
  · rw [if_pos last, bind_ok (jmp_apply width known known'), bne_iff_ne.mpr last]
    rfl

/-- A registered procedure takes the documented condition, in the reading of the heading. -/
theorem dispatch_jump (host : Host) (registered : jump.Registered) (width : Byte)
    (known : operand1.getVal machine = .ok base machine) (known' : operand2.getVal machine = .ok ip machine) :
    dispatch host { opcode := jump.mnemonic.opcode, width := width, operands := [operand1, operand2] } machine =
      .ok () { machine with
        registers := jump.result (jump.documented .heading machine.registers) machine.registers
          machine.registers.InstructionPointer base ip } := by
  cases jump with
  | je | jne | jb | jl | jbe | jle =>
    rw [ConditionalJump.mnemonic, dispatch_registered rfl]
    exact jumpIf_apply _ width known known'
  | loop =>
    rw [ConditionalJump.mnemonic, dispatch_registered rfl]
    exact loop_apply width known known'
  | jc => exact absurd rfl registered.1
  | jnc => exact absurd rfl registered.2.1
  | jo => exact absurd rfl registered.2.2.1
  | jno => exact absurd rfl registered.2.2.2

/-- The lookup of the other jumps fails. -/
theorem dispatch_unregistered (host : Host) (unregistered : ¬ jump.Registered) (width : Byte) (operands : List Operand)
    (machine : Machine) :
    dispatch host { opcode := jump.mnemonic.opcode, width := width, operands := operands } machine =
      .error .outOfRange machine := by
  cases jump with
  | jc | jnc | jo | jno =>
    simp only [dispatch, lookupProcedure, findOpcode_opcode, Option.bind_some, ConditionalJump.mnemonic, executorMap]
    rfl
  | _ => exact absurd (by decide) unregistered

/-! ## One step -/

theorem execute_escapes {instruction : ActiveInstruction} {fetched : Machine}
    (reached : fetch machine = .ok instruction fetched)
    (failed : dispatch host instruction fetched = .error .outOfRange fetched) :
    execute host machine = .error .outOfRange fetched := by
  rw [execute_fetched reached]
  simp only [guarded, tryCatch_apply, failed, handleFault, throw_apply, handleAbort]

/-- States with the same core have it when they are given the same registers. -/
theorem core_withRegisters {first second : Machine} (same : first.core = second.core) (registers : Registers) :
    Machine.core { first with registers := registers } = Machine.core { second with registers := registers } := by
  change Machine.core { first.core with registers := registers } = Machine.core { second.core with registers := registers }
  rw [same]

/-- Fetching shows neither in the condition nor in the registers after the step. -/
theorem result_advance (description : Description) (jump : ConditionalJump) (registers : Registers) (next base ip : Word) :
    jump.result (jump.documented description { registers with InstructionPointer := next })
        { registers with InstructionPointer := next } next base ip =
      jump.result (jump.documented description registers) registers next base ip := by
  have condition : jump.documented description { registers with InstructionPointer := next } =
      jump.documented description registers := by
    cases jump <;> rfl
  rw [condition, ConditionalJump.result, ConditionalJump.result]

variable {target1 target2 : Format.Target} {rest : List Byte}

/-- The step of a registered jump, in the reading of the heading. -/
theorem execute_jump (host : Host) (registered : jump.Registered)
    (code : machine.Code ((jump.code target1 target2).bytes ++ rest))
    (reads : (target1.operand machine.registers).reading machine = some base)
    (reads' : (target2.operand machine.registers).reading machine = some ip) :
    JumpsAsDocumented host .heading jump target1 target2 base ip machine := by
  obtain ⟨fetched, reached, registers, -⟩ := Format.fetch_bytes (jump.code target1 target2) code
  have core : fetched.core = machine.core := keeps_ok keeps_fetch reached
  have readable := Machine.readable_of_core core
  have known : (target1.operand machine.registers).getVal fetched = .ok base fetched := by
    rw [← Operand.reading_eq_some, Operand.reading_congr readable]
    exact reads
  have known' : (target2.operand machine.registers).getVal fetched = .ok ip fetched := by
    rw [← Operand.reading_eq_some, Operand.reading_congr readable]
    exact reads'
  have runs := dispatch_jump host registered 0 known known'
  rw [registers] at runs
  refine ⟨_, execute_returns reached runs, ?_, ?_⟩
  · exact result_advance ..
  · rw [← result_advance]
    exact core_withRegisters core _

/-- What the step leaves is determined, so only the registers of both descriptions are to be compared. -/
theorem jumpsAsDocumented_iff (description : Description)
    (heading : JumpsAsDocumented host .heading jump target1 target2 base ip machine) :
    JumpsAsDocumented host description jump target1 target2 base ip machine ↔
      let next := machine.registers.InstructionPointer + BitVec.ofNat 64 (jump.code target1 target2).bytes.length
      jump.result (jump.documented description machine.registers) machine.registers next base ip =
        jump.result (jump.documented .heading machine.registers) machine.registers next base ip := by
  obtain ⟨after, executed, registers, core⟩ := heading
  constructor
  · rintro ⟨after', executed', registers', -⟩
    rw [executed] at executed'
    obtain rfl := (EStateM.Result.ok.inj executed').2
    exact registers'.symm.trans registers
  · intro same
    refine ⟨after, executed, registers.trans same.symm, core.trans ?_⟩
    exact congrArg (fun registers => Machine.core { machine with registers := registers }) same.symm

/-- Two conditions lead `jle` to the same registers when they are equal or the jump is no jump. -/
theorem result_jle_iff (condition condition' : Bool) (registers : Registers) (next base ip : Word) :
    ConditionalJump.jle.result condition registers next base ip =
        ConditionalJump.jle.result condition' registers next base ip ↔
      condition = condition' ∨ base = registers.CodeBase ∧ ip = next := by
  cases condition <;> cases condition' <;>
    simp [ConditionalJump.result, ConditionalJump.counted, Registers.mk.injEq, eq_comm]

/-- One step of a conditional jump does what the manual says exactly when the jump is registered. In the
sentence on `JLE` that names the flags of `JBE`, it also takes flags that tell less and larger alike, or a
jump to the following instruction. -/
theorem conditionalJump_iff (host : Host) (description : Description) (jump : ConditionalJump)
    (target1 target2 : Format.Target) (base ip : Word) (rest : List Byte) (machine : Machine)
    (code : machine.Code ((jump.code target1 target2).bytes ++ rest))
    (reads : (target1.operand machine.registers).reading machine = some base)
    (reads' : (target2.operand machine.registers).reading machine = some ip) :
    JumpsAsDocumented host description jump target1 target2 base ip machine ↔
      jump.Registered ∧ (jump = .jle → description = .sentence →
        jump.documented .sentence machine.registers = jump.documented .heading machine.registers ∨
          base = machine.registers.CodeBase ∧
            ip = machine.registers.InstructionPointer + BitVec.ofNat 64 (jump.code target1 target2).bytes.length) := by
  by_cases registered : jump.Registered
  · rw [jumpsAsDocumented_iff description (execute_jump host registered code reads reads')]
    by_cases ambiguous : jump = .jle ∧ description = .sentence
    · obtain ⟨rfl, rfl⟩ := ambiguous
      refine (result_jle_iff ..).trans ⟨fun same => ⟨registered, fun _ _ => same⟩, fun both => both.2 rfl rfl⟩
    · have same : jump.documented description machine.registers = jump.documented .heading machine.registers := by
        cases description with
        | heading => rfl
        | sentence =>
          cases jump with
          | jle => exact absurd ⟨rfl, rfl⟩ ambiguous
          | _ => rfl
      constructor
      · exact fun _ => ⟨registered, fun jle sentence => absurd ⟨jle, sentence⟩ ambiguous⟩
      · exact fun _ => by rw [same]
  · constructor
    · rintro ⟨after, executed, -, -⟩
      obtain ⟨fetched, reached, -, -⟩ := Format.fetch_bytes (jump.code target1 target2) code
      rw [execute_escapes reached (dispatch_unregistered host registered _ _ fetched)] at executed
      cases executed
    · exact fun holds => absurd holds.1 registered

/-- A powered-on machine whose BIOS starts with a jump to `%FER0:%FER1`. -/
def Machine.jumping (jump : ConditionalJump) : Machine :=
  Machine.powerOn.overwrite BIOS_START
    (jump.code (.register (registerOf .w64 0)) (.register (registerOf .w64 1))).bytes

/-- `JNE <%FER0>, <%FER1>` with the flags clear. -/
theorem conditionalJump_jne :
    JumpsAsDocumented Host.ample .heading .jne (.register (registerOf .w64 0)) (.register (registerOf .w64 1)) 0 0
      (Machine.jumping .jne) := by
  have code : (Machine.jumping .jne).Code
      ((ConditionalJump.jne.code (.register (registerOf .w64 0)) (.register (registerOf .w64 1))).bytes ++ []) := by
    rw [Machine.Code]
    decide +kernel
  have reads (index : Fin 2) : ((Format.Target.register (registerOf .w64 (index.castLE (by decide)))).operand
      (Machine.jumping .jne).registers).reading (Machine.jumping .jne) = some 0 := by
    refine (Operand.reading_register ..).trans ?_
    revert index
    decide +kernel
  exact (conditionalJump_iff Host.ample .heading .jne _ _ 0 0 [] (Machine.jumping .jne) code (reads 0) (reads 1)).mpr
    ⟨by decide, (by rintro ⟨⟩)⟩

/-- `JNC <%FER0>, <%FER1>` with the carry clear ends with an exception of the procedure table. -/
theorem not_conditionalJump :
    ¬ ∀ (jump : ConditionalJump) (target1 target2 : Format.Target) (base ip : Word) (rest : List Byte)
        (machine : Machine), machine.Code ((jump.code target1 target2).bytes ++ rest) →
        (target1.operand machine.registers).reading machine = some base →
        (target2.operand machine.registers).reading machine = some ip →
        JumpsAsDocumented Host.ample .heading jump target1 target2 base ip machine := by
  intro every
  have code : (Machine.jumping .jnc).Code
      ((ConditionalJump.jnc.code (.register (registerOf .w64 0)) (.register (registerOf .w64 1))).bytes ++ []) := by
    rw [Machine.Code]
    decide +kernel
  obtain ⟨after, executed, -⟩ := every .jnc (.register (registerOf .w64 0)) (.register (registerOf .w64 1)) _ _ []
    (Machine.jumping .jnc) code (Operand.reading_register ..) (Operand.reading_register ..)
  obtain ⟨fetched, reached, -⟩ := Format.fetch_bytes _ code
  have unregistered : ¬ ConditionalJump.jnc.Registered := by decide
  rw [execute_escapes reached (dispatch_unregistered Host.ample unregistered _ _ fetched)] at executed
  cases executed

end Sysdarft
