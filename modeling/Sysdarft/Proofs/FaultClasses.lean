import Sysdarft.Proofs.DeviceFaults

/-! # Which interruption an access outside memory raises

The same failure of the memory is wrapped differently on different ways. The interruption a step raises is told
from its first failing access: data stores and transfers end in interruption `0x08` and the stack in `0x07`, but
operand loads and the fetch take the way of the stack.
-/

namespace Sysdarft

open Effects

variable {host : Host} {machine : Machine}

/-! ## Where stack exceptions and aborts come from -/

/-- An access outside memory other than for a frame, or an illegal instruction. -/
def Trouble.Plain : Trouble → Prop
  | outside site => site ≠ .frame
  | other fault => ∃ message, fault = .illegalInstruction message

/-- Neither the frame of an interruption, nor an exception that could be taken for one of the stack. -/
def Trouble.Ordinary : Trouble → Prop
  | outside site => site ≠ .frame
  | other fault => fault ≠ .stackOverflow ∧ fault ≠ .abort

/-- An access or check that fails, if at all, in a plain way. -/
def Plain (step : Option Trouble) : Prop := ∀ trouble, step = some trouble → trouble.Plain

/-- An access or check that fails, if at all, in an ordinary way. -/
def Usual (step : Option Trouble) : Prop := ∀ trouble, step = some trouble → trouble.Ordinary

theorem Plain.usual {step : Option Trouble} (plain : Plain step) : Usual step := by
  intro trouble same
  have known := plain trouble same
  cases trouble with
  | outside site => exact known
  | other fault =>
    obtain ⟨message, rfl⟩ := known
    exact ⟨nofun, nofun⟩

theorem plain_none : Plain none := nofun

theorem plain_outside {site : Site} (known : site ≠ .frame) : Plain (some (.outside site)) := by
  rintro other ⟨⟩
  exact known

theorem plain_illegal (message : String) : Plain (some (.other (.illegalInstruction message))) := by
  rintro other ⟨⟩
  exact ⟨message, rfl⟩

theorem plain_ite {c : Prop} [Decidable c] {first second : Option Trouble} (yes : Plain first) (no : Plain second) :
    Plain (if c then first else second) := by
  split_ifs
  · exact yes
  · exact no

theorem usual_none : Usual none := nofun

theorem usual_other {fault : Fault} (ordinary : fault ≠ .stackOverflow ∧ fault ≠ .abort) : Usual (some (.other fault)) := by
  rintro trouble ⟨⟩
  exact ordinary

theorem usual_ite {c : Prop} [Decidable c] {first second : Option Trouble} (yes : Usual first) (no : Usual second) :
    Usual (if c then first else second) := by
  split_ifs
  · exact yes
  · exact no

namespace Operand

theorem registerTrouble_plain (widthBCD index : Byte) : Plain (registerTrouble widthBCD index) := by
  rw [registerTrouble]
  cases Register.ofCodes widthBCD index with
  | some register => exact plain_none
  | none => exact plain_ite (plain_illegal _) (plain_illegal _)

theorem readTrouble_plain (operand : Operand) : Plain (operand.readTrouble machine) := by
  cases operand with
  | register widthBCD index => exact registerTrouble_plain widthBCD index
  | constant value width => exact plain_none
  | memory address widthBCD =>
    rw [readTrouble]
    cases Width.ofBcd widthBCD with
    | none => exact plain_illegal _
    | some width => exact plain_ite plain_none (plain_outside (by rintro ⟨⟩))

theorem writeTrouble_plain (operand : Operand) : Plain (operand.writeTrouble machine) := by
  cases operand with
  | register widthBCD index => exact registerTrouble_plain widthBCD index
  | constant value width => exact plain_illegal _
  | memory address widthBCD =>
    rw [writeTrouble]
    cases Width.ofBcd widthBCD with
    | none => exact plain_illegal _
    | some width => exact plain_ite plain_none (plain_outside (by rintro ⟨⟩))

end Operand

/-- An operand that the instruction has. -/
theorem check_plain {test : Operand → Option Trouble} (known : ∀ operand, Plain (test operand)) {arguments : Arguments}
    {index : ℕ} (present : index < arguments.operands.length) : Plain (arguments.check test index) := by
  rw [Arguments.check, List.getElem?_eq_getElem present]
  exact known _

theorem check_usual {test : Operand → Option Trouble} (known : ∀ operand, Plain (test operand)) (arguments : Arguments)
    (index : ℕ) : Usual (arguments.check test index) := by
  by_cases present : index < arguments.operands.length
  · exact (check_plain known present).usual
  · rw [Arguments.check, List.getElem?_eq_none (not_lt.mp present)]
    exact usual_other ⟨(by rintro ⟨⟩), (by rintro ⟨⟩)⟩

theorem widthTrouble_plain (message : String) (code : Byte) : Plain (widthTrouble message code) := by
  rw [widthTrouble]
  cases Width.ofBcd code with
  | none => exact plain_illegal _
  | some width => exact plain_none

theorem pushTrouble_plain (stackPointer : Word) (size : ℕ) : Plain (pushTrouble machine stackPointer size) :=
  plain_ite plain_none (plain_outside nofun)

theorem popTrouble_plain (stackPointer : Word) (size : ℕ) : Plain (popTrouble machine stackPointer size) :=
  plain_ite plain_none (plain_outside nofun)

theorem deviceTrouble_usual {α : Type} {access : CPU α} (only : ThrowsOnly Fault.OfDevice access) :
    Usual (deviceTrouble access machine) := by
  intro trouble same
  obtain ⟨fault, failed, rfl⟩ := Option.map_eq_some_iff.mp same
  have known := only machine fault failed
  exact ⟨by rintro rfl; exact known, by rintro rfl; exact known⟩

/-- The instructions that deliver interruptions. -/
def Mnemonic.Delivers (mnemonic : Mnemonic) : Prop :=
  mnemonic = .int ∨ mnemonic = .int3 ∨ mnemonic = .div ∨ mnemonic = .idiv

/-- Only the instructions that deliver interruptions may lack the stack for a frame. -/
def Mnemonic.Expects (mnemonic : Mnemonic) (step : Option Trouble) : Prop :=
  ∀ trouble, step = some trouble → trouble.Ordinary ∨ (trouble = .outside .frame ∧ mnemonic.Delivers)

theorem Usual.expected {step : Option Trouble} (usual : Usual step) (mnemonic : Mnemonic) : mnemonic.Expects step :=
  fun trouble same => .inl (usual trouble same)

theorem interruptionTrouble_expected {mnemonic : Mnemonic} (delivers : mnemonic.Delivers) (code : Word) :
    mnemonic.Expects (interruptionTrouble host machine code) := by
  intro trouble same
  rw [interruptionTrouble] at same
  split_ifs at same <;> cases same
  · exact .inl ⟨(by rintro ⟨⟩), (by rintro ⟨⟩)⟩
  · exact .inl ⟨(by rintro ⟨⟩), (by rintro ⟨⟩)⟩
  · exact .inl (by rintro ⟨⟩)
  · exact .inl ⟨(by rintro ⟨⟩), (by rintro ⟨⟩)⟩
  · exact .inl ⟨(by rintro ⟨⟩), (by rintro ⟨⟩)⟩
  · exact .inr ⟨rfl, delivers⟩

theorem divisionTrouble_expected {mnemonic : Mnemonic} (delivers : mnemonic.Delivers) (arguments : Arguments)
    (traps : Width → Word → Bool) : mnemonic.Expects (divisionTrouble host machine arguments traps) := by
  rw [divisionTrouble]
  split_ifs
  · exact interruptionTrouble_expected delivers _
  · apply Usual.expected
    cases Width.ofBcd arguments.width with
    | none => exact usual_none
    | some width => exact usual_ite (usual_other ⟨(by rintro ⟨⟩), (by rintro ⟨⟩)⟩) usual_none

theorem troubles_expected (arguments : Arguments) (mnemonic : Mnemonic) :
    ∀ step ∈ troubles host machine arguments mnemonic, mnemonic.Expects step := by
  have reads (index : ℕ) : Usual (arguments.reads machine index) :=
    check_usual Operand.readTrouble_plain arguments index
  have writes (index : ℕ) : Usual (arguments.writes machine index) :=
    check_usual Operand.writeTrouble_plain arguments index
  have effective (index : ℕ) : Usual (arguments.check (fun _ => none) index) :=
    check_usual (fun _ => plain_none) arguments index
  have allocation (size : ℕ) : Usual (allocationTrouble host size) := usual_ite usual_none (usual_other ⟨nofun, nofun⟩)
  have transfer (address : Word) (size : ℕ) : Usual (transferTrouble machine address size) :=
    usual_ite (plain_outside (show Site.transfer ≠ .frame from nofun)).usual
      (usual_ite (usual_other ⟨nofun, nofun⟩) usual_none)
  have input (port : Word) : Usual (deviceTrouble (inRequest host port) machine) :=
    deviceTrouble_usual (throwsOnly_inRequest host port)
  have block (port cx : Word) : Usual (deviceTrouble (insRequest host port cx) machine) :=
    deviceTrouble_usual (throwsOnly_insRequest host port cx)
  have output (port : Word) (data : List Byte) : Usual (deviceTrouble (hubOuts host port data) machine) :=
    deviceTrouble_usual (throwsOnly_hubOuts host port data)
  have missing : Usual (some (.other .outOfRange)) := usual_other ⟨nofun, nofun⟩
  have jump (mnemonic : Mnemonic) (condition : Bool) :
      ∀ step ∈ if condition then [arguments.reads machine 0, arguments.reads machine 1] else [], mnemonic.Expects step := by
    cases condition
    · exact nofun
    · simp only [if_true, List.forall_mem_cons, (reads _).expected, List.not_mem_nil, false_implies, implies_true, and_self]
  cases mnemonic with
  | je | jne | jb | jl | jbe | jle | loop => exact jump _ _
  | int | int3 =>
    simp only [troubles, List.forall_mem_cons, (reads _).expected, List.not_mem_nil, false_implies, implies_true,
      and_true, true_and]
    exact interruptionTrouble_expected (by simp [Mnemonic.Delivers]) _
  | div | idiv =>
    simp only [troubles, List.forall_mem_cons, (reads _).expected, (widthTrouble_plain _ _).usual.expected, List.not_mem_nil,
      false_implies, implies_true, and_true, true_and]
    exact divisionTrouble_expected (by simp [Mnemonic.Delivers]) _ _
  | _ =>
    simp only [troubles, List.forall_mem_cons, (reads _).expected, (writes _).expected,
      (pushTrouble_plain _ _).usual.expected,
      (popTrouble_plain _ _).usual.expected, (allocation _).expected, (transfer _ _).expected, (effective _).expected,
        (input _).expected,
      (block _ _).expected, (output _ _).expected, missing.expected, (widthTrouble_plain _ _).usual.expected,
        List.not_mem_nil,
      false_implies, implies_true, and_self]

theorem mem_of_firstTrouble {steps : List (Option Trouble)} {trouble : Trouble} (first : firstTrouble steps = some trouble) :
    some trouble ∈ steps := by
  obtain ⟨step, member, rfl⟩ := List.exists_of_findSome?_eq_some first
  exact member

/-- A step that fails in no ordinary way lacks the stack for the frame of an interruption it delivers. -/
theorem stepTrouble_cases {trouble : Trouble} (found : stepTrouble host machine = some trouble) :
    trouble.Ordinary ∨ (trouble = .outside .frame ∧
      ∃ decoded length, machine.decoded = .done decoded length ∧ decoded.1.Delivers) := by
  rw [stepTrouble] at found
  cases known : machine.decoded with
  | failed message length =>
    rw [known] at found
    exact .inl ((plain_illegal message).usual trouble found)
  | starved length =>
    rw [known] at found
    exact .inl ((plain_outside (show Site.fetch ≠ .frame from (by rintro ⟨⟩))).usual trouble found)
  | done decoded length =>
    rw [known] at found
    rcases troubles_expected decoded.2 decoded.1 _ (mem_of_firstTrouble found) trouble rfl with ordinary | ⟨same, delivers⟩
    · exact .inl ordinary
    · exact .inr ⟨same, decoded, length, rfl, delivers⟩

/-! ## The interruption a step raises -/

/-- The step ends in an exception that is answered with this interruption. -/
def Raises (host : Host) (machine : Machine) (code : Word) : Prop :=
  ∃ fault after, executeBody host machine = .error fault after ∧ fault.interruption = some code ∧
    execute host machine = tryCatch (doInterruption host code) handleAbort (after.noted fault)

theorem Fault.eq_stackOverflow {fault : Fault} (answered : fault.interruption = some 0x07) : fault = .stackOverflow := by
  cases fault with
  | stackOverflow => rfl
  | _ => simp [interruption] at answered

/-- The step is aborted: the frame of an interruption did not fit the stack. -/
def Aborts (host : Host) (machine : Machine) : Prop :=
  ∃ after, executeBody host machine = .error .abort after

theorem execute_answered {fault : Fault} {after : Machine} {code : Word}
    (failed : executeBody host machine = .error fault after) (answered : fault.interruption = some code) :
    execute host machine = tryCatch (doInterruption host code) handleAbort (after.noted fault) := by
  rw [execute, guarded, tryCatch_apply, tryCatch_apply, failed, tryCatch_apply]
  dsimp only
  rw [handleFault_answered answered]

theorem raises_iff (code : Word) :
    Raises host machine code ↔ ∃ trouble, stepTrouble host machine = some trouble ∧
      trouble.raises.interruption = some code := by
  have ends := executeBody_thrown host machine
  constructor
  · rintro ⟨fault, after, failed, answered, -⟩
    rw [failed] at ends
    obtain ⟨trouble, found, rfl⟩ := Option.map_eq_some_iff.mp ends.symm
    exact ⟨trouble, found, answered⟩
  · rintro ⟨trouble, found, answered⟩
    rw [found] at ends
    obtain ⟨after, failed⟩ := thrown_eq_some ends
    exact ⟨trouble.raises, after, failed, answered, execute_answered failed answered⟩

theorem aborts_iff : Aborts host machine ↔ stepTrouble host machine = some (.outside .frame) := by
  have ends := executeBody_thrown host machine
  constructor
  · rintro ⟨after, failed⟩
    rw [failed] at ends
    obtain ⟨trouble, found, same⟩ := Option.map_eq_some_iff.mp ends.symm
    cases trouble with
    | outside site => cases site <;> first | exact found | cases same
    | other fault =>
      obtain rfl : fault = .abort := same
      rcases stepTrouble_cases found with ordinary | ⟨other, -⟩
      · exact absurd rfl ordinary.2
      · cases other
  · intro found
    rw [found] at ends
    exact thrown_eq_some ends

/-! ## The classes -/

/-- The ways of the stack at `SB+SP`: pushes and pops, and the frames of interruptions. -/
def Site.OnStack : Site → Prop
  | stack | frame => True
  | fetch | operandRead | operandWrite | transfer => False

/-- The interruption of a step tells an access outside memory from one of the stack. -/
structure Classified (host : Host) (machine : Machine) : Prop where
  outside : ∀ site, stepTrouble host machine = some (.outside site) → ¬ site.OnStack → Raises host machine 0x08
  overflow : Raises host machine 0x07 ∨ Aborts host machine →
    ∃ site, stepTrouble host machine = some (.outside site) ∧ site.OnStack

/-- Accesses outside memory are classified exactly in the steps that neither fetch outside of it nor load an
operand from outside of it. -/
theorem classified_iff (host : Host) (machine : Machine) :
    Classified host machine ↔
      stepTrouble host machine ≠ some (.outside .fetch) ∧ stepTrouble host machine ≠ some (.outside .operandRead) := by
  constructor
  · intro classified
    constructor <;> intro found
    all_goals
      obtain ⟨trouble, found', answered⟩ := (raises_iff _).mp (classified.outside _ found id)
      cases found.symm.trans found'
      exact absurd answered (by decide)
  · rintro ⟨fetched, loaded⟩
    constructor
    · intro site found aside
      refine (raises_iff _).mpr ⟨_, found, ?_⟩
      cases site with
      | fetch => exact absurd found fetched
      | operandRead => exact absurd found loaded
      | operandWrite | transfer => rfl
      | stack | frame => exact absurd trivial aside
    · rintro (raised | aborted)
      · obtain ⟨trouble, found, answered⟩ := (raises_iff _).mp raised
        refine ⟨.stack, ?_, trivial⟩
        have overflow := Fault.eq_stackOverflow answered
        cases trouble with
        | outside site =>
          cases site with
          | stack => exact found
          | fetch => exact absurd found fetched
          | operandRead => exact absurd found loaded
          | operandWrite | transfer | frame => cases overflow
        | other fault =>
          obtain rfl : fault = .stackOverflow := overflow
          rcases stepTrouble_cases found with ordinary | ⟨other, -⟩
          · exact absurd rfl ordinary.1
          · cases other
      · exact ⟨.frame, aborts_iff.mp aborted, trivial⟩

/-- The first byte after a megabyte of memory. -/
def beyondMemory : Format.Target :=
  .memory .r1 .w8 (.constant ⟨.w64, 0x100000⟩) (.constant ⟨.w8, 0⟩) (.constant ⟨.w8, 0⟩)

/-- A powered-on machine whose BIOS starts with `MOV .8bit`. -/
def Machine.moving (target source : Format.Target) : Machine :=
  Machine.powerOn.overwrite BIOS_START
    (Format.Instruction.mk .mov (some .w8) [target, source] (Format.widthed_some .w8)
      (Format.counted_two target source)).bytes

/-- A store to the byte after memory raises interruption `0x08`, a load from it interruption `0x07`. -/
theorem not_classified :
    (¬ ∀ (host : Host) (machine : Machine), Classified host machine) ∧
      Raises Host.ample (Machine.moving (.register (registerOf .w8 0)) beyondMemory) 0x07 ∧
      Raises Host.ample (Machine.moving beyondMemory (.register (registerOf .w8 0))) 0x08 := by
  have load : stepTrouble Host.ample (Machine.moving (.register (registerOf .w8 0)) beyondMemory) =
      some (.outside .operandRead) := by decide +kernel
  have store : stepTrouble Host.ample (Machine.moving beyondMemory (.register (registerOf .w8 0))) =
      some (.outside .operandWrite) := by decide +kernel
  refine ⟨fun every => ?_, (raises_iff _).mpr ⟨_, load, rfl⟩, (raises_iff _).mpr ⟨_, store, rfl⟩⟩
  obtain ⟨trouble, found, answered⟩ := (raises_iff _).mp ((every _ _).outside _ load id)
  cases load.symm.trans found
  exact absurd answered (by decide)

end Sysdarft
