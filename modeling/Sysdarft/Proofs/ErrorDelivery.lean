import Sysdarft.Proofs.FaultClasses

/-! # No error of a step is lost

A step that cannot be completed ends with an interruption delivered, or with the redirection to the stack
overflow vector, unless its exception is one that no handler of `execute` answers. When that happens is told
from the instruction at `CB:IP` and the state before the step.
-/

namespace Sysdarft

open Effects Reading

variable {host : Host} {machine : Machine}

/-! ## What the handlers reach -/

namespace Machine

/-- Control at a vector, with the mask set and nothing pushed. -/
def entered (machine : Machine) (code : ℕ) : Machine :=
  { machine with registers := jumped machine.registers (machine.vector code) }

/-- The machine after the interruption for an error. Fatal errors and stack overflows push no frame; any other
frame that does not fit is redirected. -/
def answered (machine : Machine) (code : Word) : Machine :=
  if code = 0x00 ∨ code = 0x07 then machine.entered code.toNat
  else if machine.FrameFits then machine.delivered code.toNat
  else machine.redirected

end Machine

theorem doInterruptionFatal_ok (machine : Machine) : doInterruptionFatal machine = .ok () (machine.entered 0) := by
  simp only [doInterruptionFatal, bind_apply, doInterruptionLookup_ok machine (show (0x00 : Word).toNat ≤ 0xFF by decide),
    setMask, getRegisters, get_apply, pure_apply, storeFlags, doJumpTable, modifyRegisters, modify_apply]
  rfl

/-- An interruption of the handlers without a handler of its own. -/
theorem answered_plain {code : Word} (hardware : code.toNat ≤ 0x1F) (plain : builtInHandler host code = none)
    (framed : ¬ (code = 0x00 ∨ code = 0x07)) (machine : Machine) :
    tryCatch (doInterruption host code) handleAbort machine = .ok () (machine.answered code) := by
  have open_ : ¬ Held code machine := fun held => absurd held.1 (not_lt.mpr hardware)
  rw [Machine.answered, if_neg framed, tryCatch_apply]
  by_cases fits : machine.FrameFits
  · rw [doInterruption_room host (by omega) plain open_ fits, if_pos fits]
  · rw [doInterruption_full (by omega) plain open_ fits, if_neg fits]
    rfl

/-- The handlers always return. -/
theorem answered_apply {fault : Fault} {code : Word} (answered : fault.interruption = some code) (machine : Machine) :
    tryCatch (doInterruption host code) handleAbort machine = .ok () (machine.answered code) := by
  cases fault with
  | deviceIOError message | noSuchDevice message | badInterruption message | interruptionOutOfRange message
  | illegalInstruction message | illegalMemoryAccess message =>
    cases answered
    exact answered_plain (by decide) rfl (by decide) machine
  | stackOverflow =>
    cases answered
    rw [tryCatch_apply, doInterruption_builtIn (by decide) rfl, doStackoverflow_ok]
    rfl
  | baseError message =>
    cases answered
    rw [tryCatch_apply, doInterruption_builtIn (by decide) rfl, doInterruptionFatal_ok]
    rfl
  | abort | outOfRange | badAllocation | systemError | arithmeticTrap | undefined => cases answered

/-! ## Aborted instructions -/

/-- A program that aborts only after the redirection to the stack overflow vector. -/
def Redirects {α : Type} (x : CPU α) : Prop :=
  ∀ machine after, x machine = .error .abort after → ∃ stopped : Machine, ¬ stopped.FrameFits ∧ after = stopped.redirected

theorem redirects_of_throwsOnly {α : Type} {x : CPU α} (only : ThrowsOnly (fun fault => fault ≠ .abort) x) :
    Redirects x := by
  intro machine after failed
  exact absurd rfl (only machine .abort (by rw [failed]; rfl))

theorem redirects_bind {α β : Type} {x : CPU α} {f : α → CPU β} (first : Redirects x) (second : ∀ a, Redirects (f a)) :
    Redirects (x >>= f) := by
  intro machine after failed
  rcases bind_eq_error.mp failed with early | ⟨a, middle, -, late⟩
  · exact first machine after early
  · exact second a middle after late

theorem redirects_ite {α : Type} {c : Prop} [Decidable c] {x y : CPU α} (yes : Redirects x) (no : Redirects y) :
    Redirects (if c then x else y) := by
  split_ifs
  · exact yes
  · exact no

theorem Trouble.Ordinary.raises_ne {trouble : Trouble} (ordinary : trouble.Ordinary) : trouble.raises ≠ .abort := by
  cases trouble with
  | outside site =>
    cases site with
    | frame => exact absurd rfl ordinary
    | fetch | operandRead | operandWrite | transfer | stack => exact nofun
  | other fault => exact ordinary.2

theorem redirects_usual {α : Type} {x : CPU α} {step : Machine → Option Trouble}
    (known : ∀ machine, thrown (x machine) = (step machine).map Trouble.raises) (usual : ∀ machine, Usual (step machine)) :
    Redirects x := by
  apply redirects_of_throwsOnly
  intro machine fault failed
  rw [known] at failed
  obtain ⟨trouble, found, rfl⟩ := Option.map_eq_some_iff.mp failed
  exact (usual machine trouble found).raises_ne

/-- An interruption that lacks the stack for its frame is redirected before the abort. -/
theorem redirects_doInterruption (host : Host) (code : Word) : Redirects (doInterruption host code) := by
  intro machine after failed
  have known := doInterruption_thrown host machine code
  rw [failed] at known
  obtain ⟨trouble, found, aborts⟩ := Option.map_eq_some_iff.mp known.symm
  rcases interruptionTrouble_expected (show Mnemonic.int.Delivers from .inl rfl) code trouble found with ordinary | ⟨rfl, -⟩
  · exact absurd aborts ordinary.raises_ne
  rw [interruptionTrouble] at found
  split_ifs at found with illegal held beyond debug fits position range bell starts builtIn fits <;> cases found
  rw [doInterruption_full (vector_exists illegal beyond) (by simpa using builtIn) held fits] at failed
  cases failed
  exact ⟨machine, fits, rfl⟩

theorem redirects_argument (arguments : Arguments) (index : ℕ) : Redirects (arguments.getVal index) :=
  redirects_usual (arguments.getVal_thrown index) fun _ =>
    check_usual Operand.readTrouble_plain arguments index

theorem redirects_operationWidth (message : String) (code : Byte) : Redirects (operationWidth message code) :=
  redirects_usual (operationWidth_thrown message code) fun _ => (widthTrouble_plain message code).usual

theorem redirects_loadRegister (register : Register) : Redirects (loadRegister register) :=
  redirects_of_throwsOnly (throwsOnly_of_returns (loadRegister_returns register))

theorem redirects_storeRegister (register : Register) (value : Word) : Redirects (storeRegister register value) :=
  redirects_of_throwsOnly (throwsOnly_of_returns (storeRegister_returns register value))

theorem redirects_checkOverflow (code : Byte) (value : Word) : Redirects (checkOverflow code value) :=
  redirects_usual (checkOverflow_thrown code value) fun _ => (widthTrouble_plain _ code).usual

theorem redirects_checkSigned (code : Byte) (value : Word) : Redirects (checkSigned code value) :=
  redirects_ite (redirects_checkOverflow code value)
    (redirects_bind (redirects_operationWidth _ code) fun _ =>
      redirects_of_throwsOnly (throwsOnly_of_returns fun _ => rfl))

theorem redirects_dispatch {mnemonic : Mnemonic} (delivers : mnemonic.Delivers) (arguments : Arguments) :
    Redirects (dispatch host (activeInstruction (mnemonic, arguments))) := by
  have reached {procedure : Arguments → CPU Unit} (registered : executorMap host mnemonic = some procedure)
      (redirects : Redirects (procedure arguments)) :
        Redirects (dispatch host (activeInstruction (mnemonic, arguments))) := by
    rw [activeInstruction, dispatch_registered registered]
    exact redirects
  rcases delivers with rfl | rfl | rfl | rfl
  · exact reached rfl (redirects_bind (redirects_argument arguments 0) (redirects_doInterruption host))
  · exact reached rfl (redirects_doInterruption host 0x03)
  · apply reached rfl
    refine redirects_bind (redirects_operationWidth _ _) fun _ => redirects_bind (redirects_loadRegister _) fun _ =>
      redirects_bind (redirects_argument arguments 0) fun _ => redirects_ite (redirects_doInterruption host 0x01) ?_
    exact redirects_bind (redirects_checkOverflow _ _) fun _ => redirects_bind (redirects_checkOverflow _ _) fun _ =>
      redirects_bind (redirects_storeRegister _ _) fun _ => redirects_storeRegister _ _
  · apply reached rfl
    refine redirects_bind (redirects_operationWidth _ _) fun _ =>
      redirects_bind (redirects_bind (redirects_loadRegister _) fun _ =>
        redirects_of_throwsOnly (throwsOnly_pure _)) fun _ =>
      redirects_bind (redirects_argument arguments 0) fun _ => redirects_ite (redirects_doInterruption host 0x01)
        (redirects_ite (redirects_of_throwsOnly (throwsOnly_throw nofun)) ?_)
    exact redirects_bind (redirects_checkSigned _ _) fun _ => redirects_bind (redirects_checkSigned _ _) fun _ =>
      redirects_bind (redirects_storeRegister _ _) fun _ => redirects_storeRegister _ _

/-- A step that aborts has been redirected. -/
theorem executeBody_redirects {after : Machine} (aborted : executeBody host machine = .error .abort after) :
    ∃ stopped : Machine, ¬ stopped.FrameFits ∧ after = stopped.redirected := by
  rcases stepTrouble_cases (aborts_iff.mp ⟨after, aborted⟩) with ordinary | ⟨-, decoded, length, known, delivers⟩
  · exact absurd rfl ordinary
  · have fetched := fetch_apply machine
    rw [known] at fetched
    rw [executeBody, bind_ok fetched] at aborted
    exact redirects_dispatch delivers decoded.2 _ after aborted

/-! ## Lost exceptions -/

/-- An empty block that begins right after memory. -/
def Machine.EmptyAtEnd (machine : Machine) (address count : Word) : Prop :=
  count = 0 ∧ address.toNat = machine.memory.total

instance (machine : Machine) (address count : Word) : Decidable (machine.EmptyAtEnd address count) :=
  inferInstanceAs (Decidable (_ ∧ _))

/-- The instructions whose exception no handler answers: the jumps without a procedure, the quotient that the
host traps on, a sound thread that does not start, memory that the host refuses, and empty blocks right after
memory. -/
def Mnemonic.Loses (host : Host) (machine : Machine) (arguments : Arguments) (mnemonic : Mnemonic) : Prop :=
  let registers := machine.registers
  let readable (index : ℕ) := arguments.reads machine index = none
  let value := arguments.value machine
  let count := registers.load FER3
  let source := registers.ExtendedPointer + registers.ExtendedBase
  let data := registers.DataBase + registers.DataPointer
  match mnemonic with
  | .jc | .jnc | .jo | .jno => True
  | .idiv =>
    arguments.width = Width.w64.bcd ∧ readable 0 ∧ registers.load FER0 = BitVec.intMin 64 ∧ value 0 = -1
  | .int => readable 0 ∧ value 0 = 0x17 ∧ ¬ host.startsThread
  | .movs =>
    ¬ host.allocates count.toNat ∨ machine.EmptyAtEnd source count ∨
      (source.toNat < machine.memory.total ∧ machine.EmptyAtEnd data count)
  | .in_ | .ins => readable 0 ∧ machine.RefusesIns host (value 0)
  | .out => readable 0 ∧ readable 1 ∧ machine.RefusesOuts host (value 0) 8
  | .outs =>
    readable 0 ∧ (¬ host.allocates count.toNat ∨ machine.EmptyAtEnd data count ∨
      (data.toNat + count.toNat ≤ machine.memory.total ∧ machine.RefusesOuts host (value 0) count.toNat))
  | _ => False

/-- The instruction at `CB:IP` loses its exception. -/
def LosesError (host : Host) (machine : Machine) : Prop :=
  ∃ mnemonic arguments length, machine.decoded = .done (mnemonic, arguments) length ∧
    mnemonic.Loses host (machine.fetched length) arguments

/-- A step that ends in a lost exception. -/
def Fatal (step : Option Trouble) : Prop := ∃ trouble, step = some trouble ∧ trouble.raises.Lost

theorem not_fatal_none : ¬ Fatal none := by
  rintro ⟨trouble, same, -⟩
  cases same

theorem fatal_some (trouble : Trouble) : Fatal (some trouble) ↔ trouble.raises.Lost := by
  constructor
  · rintro ⟨other, ⟨⟩, lost⟩
    exact lost
  · exact fun lost => ⟨trouble, rfl, lost⟩

theorem not_fatal_outside (site : Site) : ¬ Fatal (some (.outside site)) := by
  rw [fatal_some]
  cases site <;> exact fun lost => absurd lost (by decide)

theorem Plain.not_fatal {step : Option Trouble} (plain : Plain step) : ¬ Fatal step := by
  rintro ⟨trouble, same, lost⟩
  have known := plain trouble same
  cases trouble with
  | outside site => exact not_fatal_outside site ⟨_, rfl, lost⟩
  | other fault =>
    obtain ⟨message, rfl⟩ := known
    exact absurd lost.1 nofun

/-- The first failing step is fatal. -/
theorem fatal_cons (step : Option Trouble) (steps : List (Option Trouble)) :
    Fatal (firstTrouble (step :: steps)) ↔ Fatal step ∨ (step = none ∧ Fatal (firstTrouble steps)) := by
  cases step with
  | none => simp [firstTrouble, not_fatal_none]
  | some trouble => simp [firstTrouble]

theorem allocation_fatal_iff (size : ℕ) : Fatal (allocationTrouble host size) ↔ ¬ host.allocates size := by
  rw [allocationTrouble]
  split_ifs with granted
  · exact iff_of_false not_fatal_none (not_not.mpr granted)
  · exact iff_of_true ((fatal_some _).mpr ⟨rfl, (by rintro ⟨⟩)⟩) granted

theorem transfer_fatal_iff (address count : Word) :
    Fatal (transferTrouble machine address count.toNat) ↔ machine.EmptyAtEnd address count := by
  rw [transferTrouble, Machine.EmptyAtEnd]
  split_ifs with outside atEnd
  · exact iff_of_false (not_fatal_outside _) fun empty => by
      rw [empty.1] at outside
      exact absurd empty.2 (Nat.ne_of_gt outside)
  · refine iff_of_true ((fatal_some _).mpr ⟨rfl, (by rintro ⟨⟩)⟩) ⟨BitVec.eq_of_toNat_eq ?_, atEnd⟩
    exact Nat.eq_zero_of_le_zero (by omega)
  · exact iff_of_false not_fatal_none fun empty => atEnd empty.2

theorem transfer_none_iff (address : Word) (size : ℕ) :
    transferTrouble machine address size = none ↔
      address.toNat + size ≤ machine.memory.total ∧ address.toNat ≠ machine.memory.total := by
  rw [transferTrouble]
  split_ifs with outside atEnd
  · exact iff_of_false (by rintro ⟨⟩) fun inside => absurd outside (not_lt.mpr inside.1)
  · exact iff_of_false (by rintro ⟨⟩) fun inside => inside.2 atEnd
  · exact iff_of_true rfl ⟨not_lt.mp outside, atEnd⟩

theorem device_fatal_iff {α : Type} (access : CPU α) :
    Fatal (deviceTrouble access machine) ↔ EndsIn Fault.Lost (access machine) := by
  rw [deviceTrouble, EndsIn]
  constructor
  · rintro ⟨trouble, same, lost⟩
    obtain ⟨fault, failed, rfl⟩ := Option.map_eq_some_iff.mp same
    exact ⟨fault, failed, lost⟩
  · rintro ⟨fault, failed, lost⟩
    exact ⟨.other fault, by rw [failed]; rfl, lost⟩

theorem interruption_fatal_iff (code : Word) :
    Fatal (interruptionTrouble host machine code) ↔ code = 0x17 ∧ ¬ host.startsThread := by
  have other {step : Option Trouble} (safe : ¬ Fatal step) (apart : code ≠ 0x17) :
      Fatal step ↔ code = 0x17 ∧ ¬ host.startsThread := iff_of_false safe fun bell => apart bell.1
  rw [interruptionTrouble]
  split_ifs with illegal held beyond debug fits position range bell starts builtIn fits
  · refine other ((fatal_some _).not.mpr fun lost => absurd lost.1 (by rintro ⟨⟩)) ?_
    rintro rfl
    exact absurd illegal (by decide)
  · refine other not_fatal_none ?_
    rintro rfl
    exact absurd held.1 (by decide)
  · refine other ((fatal_some _).not.mpr fun lost => absurd lost.1 (by rintro ⟨⟩)) ?_
    rintro rfl
    exact absurd beyond (by decide)
  · exact other not_fatal_none (by rw [debug]; decide)
  · exact other (not_fatal_outside _) (by rw [debug]; decide)
  · exact other ((fatal_some _).not.mpr fun lost => absurd lost.1 (by rintro ⟨⟩)) (by rw [position]; decide)
  · exact other not_fatal_none (by rw [position]; decide)
  · exact iff_of_false not_fatal_none fun refused => refused.2 starts
  · exact iff_of_true ((fatal_some _).mpr ⟨rfl, (by rintro ⟨⟩)⟩) ⟨bell, starts⟩
  · exact other not_fatal_none bell
  · exact other not_fatal_none bell
  · exact other (not_fatal_outside _) bell

theorem division_fatal_iff (arguments : Arguments) (traps : Width → Word → Bool) :
    Fatal (divisionTrouble host machine arguments traps) ↔
      arguments.value machine 0 ≠ 0 ∧
        ∃ width, Width.ofBcd arguments.width = some width ∧ traps width (arguments.value machine 0) := by
  rw [divisionTrouble]
  split_ifs with zero
  · exact iff_of_false ((interruption_fatal_iff 0x01).not.mpr fun bell => absurd bell.1 (by decide)) fun part => part.1 zero
  · cases Width.ofBcd arguments.width with
    | none =>
      refine iff_of_false not_fatal_none ?_
      rintro ⟨_, width, same, _⟩
      cases same
    | some width =>
      simp only [zero, not_false_eq_true, ne_eq, true_and, Option.some.injEq, exists_eq_left']
      split_ifs with trapped
      · exact iff_of_true ((fatal_some _).mpr ⟨rfl, (by rintro ⟨⟩)⟩) trapped
      · exact iff_of_false not_fatal_none trapped

/-- Only the 64-bit dividend can be the least integer: the others are filled with ones. -/
theorem filledBase_eq_intMin_iff (registers : Registers) (width : Width) :
    filledBase registers width = BitVec.intMin 64 ↔ width = .w64 ∧ registers.load FER0 = BitVec.intMin 64 := by
  cases width with
  | w64 =>
    have whole : filledBase registers .w64 = registers.load FER0 := by
      rw [filledBase, show ~~~ ((BitVec.allOnes Width.w64.bits).setWidth 64) = 0#64 from rfl, BitVec.or_zero]
      rfl
    rw [whole]
    simp
  | w8 | w16 | w32 =>
    refine iff_of_false (fun same => ?_) (fun part => by cases part.1)
    have top := congrArg (fun value : Word => value.getLsbD 32) same
    simp [filledBase, Width.bits, BitVec.intMin] at top

/-- When the exception of an instruction is lost. -/
theorem loses_iff {mnemonic : Mnemonic} {arguments : Arguments}
    (counted : arguments.operands.length = mnemonic.argumentCount) :
    Fatal (firstTrouble (troubles host machine arguments mnemonic)) ↔ mnemonic.Loses host machine arguments := by
  have nothing : ¬ Fatal (firstTrouble []) := not_fatal_none
  have reads (index : ℕ) (present : index < mnemonic.argumentCount) : ¬ Fatal (arguments.reads machine index) :=
    (check_plain Operand.readTrouble_plain (by rw [counted]; exact present)).not_fatal
  have writes (index : ℕ) (present : index < mnemonic.argumentCount) : ¬ Fatal (arguments.writes machine index) :=
    (check_plain Operand.writeTrouble_plain (by rw [counted]; exact present)).not_fatal
  have effective (index : ℕ) (present : index < mnemonic.argumentCount) : ¬ Fatal (arguments.check (fun _ => none) index) :=
    (check_plain (fun _ => plain_none) (by rw [counted]; exact present)).not_fatal
  have widths (message : String) : ¬ Fatal (widthTrouble message arguments.width) := (widthTrouble_plain _ _).not_fatal
  have push (stackPointer : Word) (size : ℕ) : ¬ Fatal (pushTrouble machine stackPointer size) :=
    (pushTrouble_plain _ _).not_fatal
  have pop (stackPointer : Word) (size : ℕ) : ¬ Fatal (popTrouble machine stackPointer size) :=
    (popTrouble_plain _ _).not_fatal
  have jump (condition : Bool) (two : mnemonic.argumentCount = 2) :
      ¬ Fatal (firstTrouble (if condition then [arguments.reads machine 0, arguments.reads machine 1] else [])) := by
    cases condition
    · exact nothing
    · simp only [if_true, fatal_cons, reads 0 (by omega), reads 1 (by omega), nothing, and_false, or_false,
        not_false_eq_true]
  cases mnemonic with
  | nop | hlt | igni | alwi | leave => exact iff_of_false nothing id
  | pushall | popall | ret | iret =>
    simp only [troubles, fatal_cons, push, pop, nothing, and_false, or_false, Mnemonic.Loses]
  | mul | imul | neg | not | inc | dec | push | pop | enter =>
    simp only [troubles, fatal_cons, reads 0 (by decide), writes 0 (by decide), widths, push, pop, nothing, and_false,
      or_false, Mnemonic.Loses]
  | add | adc | sub | sbb | cmp | and | or | xor | shl | shr | rol | ror | rcl | rcr | mov | xchg | lea | jmp | call =>
    simp only [troubles, fatal_cons, reads 0 (by decide), reads 1 (by decide), writes 0 (by decide), writes 1 (by decide),
      effective 1 (by decide), widths, push, nothing, and_false, or_false, Mnemonic.Loses]
  | je | jne | jb | jl | jbe | jle | loop => exact iff_of_false (jump _ rfl) id
  | jc | jnc | jo | jno => exact iff_of_true ⟨_, rfl, rfl, (by rintro ⟨⟩)⟩ trivial
  | int3 =>
    simp only [troubles, fatal_cons, interruption_fatal_iff, nothing, and_false, or_false, Mnemonic.Loses]
    exact iff_of_false (fun bell => absurd bell.1 (by decide)) id
  | int =>
    simp only [troubles, fatal_cons, reads 0 (by decide), interruption_fatal_iff, nothing, and_false, or_false, false_or,
      Mnemonic.Loses]
  | div =>
    simp only [troubles, fatal_cons, reads 0 (by decide), widths, division_fatal_iff, nothing, and_false, or_false,
      Bool.false_eq_true, and_false, exists_false, Mnemonic.Loses]
  | idiv =>
    simp only [troubles, fatal_cons, reads 0 (by decide), widths, division_fatal_iff, nothing, and_false, or_false, false_or,
      Bool.and_eq_true, beq_iff_eq, filledBase_eq_intMin_iff, Mnemonic.Loses]
    constructor
    · rintro ⟨-, fine, -, _, known, ⟨rfl, least⟩, minus⟩
      exact ⟨(Width.bcd_of_ofBcd known).symm, fine, least, minus⟩
    · rintro ⟨sized, fine, least, minus⟩
      have known : Width.ofBcd arguments.width = some .w64 := by rw [sized, Width.ofBcd_bcd]
      refine ⟨by rw [widthTrouble, known], fine, by rw [minus]; decide, .w64, known, ⟨rfl, least⟩, minus⟩
  | movs =>
    simp only [troubles, fatal_cons, allocation_fatal_iff, transfer_fatal_iff, transfer_none_iff, nothing, and_false,
      or_false,
      BitVec.add_comm machine.registers.DataPointer, Mnemonic.Loses]
    by_cases granted : host.allocates (machine.registers.load FER3).toNat
    swap
    · exact iff_of_true (.inl granted) (.inl granted)
    simp only [granted, not_true_eq_false, false_or, allocationTrouble, if_true, true_and]
    refine or_congr_right ⟨?_, ?_⟩
    · rintro ⟨⟨inside, apart⟩, empty⟩
      exact ⟨by omega, empty⟩
    · rintro ⟨inside, empty⟩
      have zero : (machine.registers.load FER3).toNat = 0 := congrArg BitVec.toNat empty.1
      exact ⟨⟨by omega, by omega⟩, empty⟩
  | in_ =>
    simp only [troubles, fatal_cons, reads 0 (by decide), writes 1 (by decide), device_fatal_iff, inRequest_loses_iff,
      nothing,
      and_false, or_false, false_or, Mnemonic.Loses]
  | out =>
    simp only [troubles, fatal_cons, reads 0 (by decide), reads 1 (by decide), device_fatal_iff, hubOuts_loses_iff,
      LittleEndian.length_bytes, nothing, and_false, or_false, false_or, Mnemonic.Loses]
  | ins =>
    simp only [troubles, fatal_cons, reads 0 (by decide), device_fatal_iff, insRequest_loses_iff, transfer_fatal_iff,
      nothing,
      and_false, or_false, false_or, Mnemonic.Loses]
    refine and_congr_right fun _ => or_iff_left ?_
    rintro ⟨fine, empty⟩
    obtain ⟨result, after, done⟩ := thrown_eq_none (Option.map_eq_none_iff.mp fine)
    have some := insRequest_pos done
    rw [empty.1] at some
    exact absurd some (by decide)
  | outs =>
    simp only [troubles, fatal_cons, reads 0 (by decide), allocation_fatal_iff, transfer_fatal_iff, transfer_none_iff,
      device_fatal_iff, hubOuts_loses_iff, FlatMemory.length_read, nothing, and_false, or_false, false_or, Mnemonic.Loses]
    refine and_congr_right fun _ => ?_
    by_cases granted : host.allocates (machine.registers.load FER3).toNat
    swap
    · exact iff_of_true (.inl granted) (.inl granted)
    simp only [granted, not_true_eq_false, false_or, allocationTrouble, if_true, true_and]
    constructor
    · rintro (empty | ⟨⟨inside, -⟩, refused⟩)
      · exact .inl empty
      · exact .inr ⟨inside, refused⟩
    · rintro (empty | ⟨inside, refused⟩)
      · exact .inl empty
      · by_cases atEnd : (machine.registers.DataBase + machine.registers.DataPointer).toNat = machine.memory.total
        · exact .inl ⟨BitVec.eq_of_toNat_eq (show _ = 0 by omega), atEnd⟩
        · exact .inr ⟨⟨inside, atEnd⟩, refused⟩

theorem fatal_stepTrouble_iff : Fatal (stepTrouble host machine) ↔ LosesError host machine := by
  rw [stepTrouble, LosesError]
  cases found : machine.decoded with
  | failed message length =>
    refine iff_of_false (plain_illegal message).not_fatal ?_
    rintro ⟨mnemonic, arguments, length', same, -⟩
    cases same
  | starved length =>
    refine iff_of_false (not_fatal_outside .fetch) ?_
    rintro ⟨mnemonic, arguments, length', same, -⟩
    cases same
  | done decoded length =>
    refine (loses_iff ((readInstruction_counted machine.registers).outcome found)).trans ⟨fun loses => ?_, ?_⟩
    · exact ⟨decoded.1, decoded.2, length, rfl, loses⟩
    · rintro ⟨mnemonic, arguments, length', same, loses⟩
      cases same
      exact loses

/-! ## The step -/

/-- The step returns. Its instruction was completed; or it ended in an exception, and the interruption for it has
been delivered; or it lacked the stack for an interruption that it delivered itself, and has been redirected. -/
def NothingLost (host : Host) (machine : Machine) : Prop :=
  ∃ after, execute host machine = .ok () after ∧
    (executeBody host machine = .ok () after ∨
      (∃ fault stopped code, executeBody host machine = .error fault stopped ∧ fault.interruption = some code ∧
        after = (stopped.noted fault).answered code) ∨
      ∃ stopped : Machine, executeBody host machine = .error .abort after ∧ ¬ stopped.FrameFits ∧ after = stopped.redirected)

theorem execute_completed {after : Machine} (done : executeBody host machine = .ok () after) :
    execute host machine = .ok () after := by
  rw [execute, guarded, tryCatch_apply, tryCatch_apply, done]

theorem execute_aborted {after : Machine} (aborted : executeBody host machine = .error .abort after) :
    execute host machine = .ok () after := by
  rw [execute, guarded, tryCatch_apply, tryCatch_apply, aborted]
  dsimp only
  rw [handleFault_unanswered rfl]
  rfl

theorem execute_lost {fault : Fault} {after : Machine} (failed : executeBody host machine = .error fault after)
    (lost : fault.Lost) : execute host machine = .error fault after := by
  rw [execute, guarded, tryCatch_apply, tryCatch_apply, failed]
  dsimp only
  rw [handleFault_unanswered lost.1]
  cases fault with
  | abort => exact absurd rfl lost.2
  | _ => rfl

/-- A step loses nothing exactly when the instruction at `CB:IP` is none of those that lose their exception in the
state before it. -/
theorem nothingLost_iff (host : Host) (machine : Machine) : NothingLost host machine ↔ ¬ LosesError host machine := by
  rw [← fatal_stepTrouble_iff]
  have ends := executeBody_thrown host machine
  cases found : stepTrouble host machine with
  | none =>
    rw [found] at ends
    obtain ⟨_, after, done⟩ := thrown_eq_none ends
    exact iff_of_true ⟨after, execute_completed done, .inl done⟩ not_fatal_none
  | some trouble =>
    rw [found] at ends
    obtain ⟨stopped, failed⟩ := thrown_eq_some ends
    rw [fatal_some]
    cases answered : trouble.raises.interruption with
    | some code =>
      refine iff_of_true ⟨_, ?_, .inr (.inl ⟨_, stopped, code, failed, answered, rfl⟩)⟩ fun lost => ?_
      · rw [execute_answered failed answered, answered_apply answered]
      · rw [lost.1] at answered
        cases answered
    | none =>
      by_cases aborts : trouble.raises = .abort
      · rw [aborts] at failed ⊢
        obtain ⟨before, full, same⟩ := executeBody_redirects failed
        exact iff_of_true ⟨stopped, execute_aborted failed, .inr (.inr ⟨before, failed, full, same⟩)⟩
          fun lost => lost.2 rfl
      · refine iff_of_false ?_ (not_not.mpr ⟨answered, aborts⟩)
        rintro ⟨after, returned, -⟩
        rw [execute_lost failed ⟨answered, aborts⟩] at returned
        cases returned

/-- A powered-on machine whose BIOS starts with `MOVS`, with a count that no host grants. -/
def Machine.copying : Machine :=
  let loaded := Machine.powerOn.overwrite BIOS_START [Mnemonic.movs.opcode]
  { loaded with registers := loaded.registers.store (BitVec.allOnes 64) FER3 }

/-- `MOVS` of more bytes than the host has ends with the exception of the host's allocator. -/
theorem not_nothingLost : ¬ ∀ (host : Host) (machine : Machine), NothingLost host machine := by
  intro every
  have refused : stepTrouble Host.ample Machine.copying = some (.other .badAllocation) := by decide +kernel
  apply (nothingLost_iff Host.ample Machine.copying).mp (every _ _)
  rw [← fatal_stepTrouble_iff, refused, fatal_some]
  exact ⟨rfl, nofun⟩

end Sysdarft
