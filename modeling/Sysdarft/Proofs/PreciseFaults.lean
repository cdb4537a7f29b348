import Sysdarft.Proofs.DispatchFaults
import Sysdarft.Proofs.Iret

/-! # Precise faults

An instruction that ends in a stack overflow, an illegal memory access or an illegal instruction should
not have committed anything. Most procedures check and read before they store. The exceptions are the
ones that go on after a first store: the second transfer of `call` and `ret`, the store of `pop` and
`xchg`, and arithmetic that sets the flags and then finds that its target is a constant.
-/

namespace Sysdarft

open Effects

def arithmeticView (flags : Word) : List Bool :=
  [getFlag flags .carry, getFlag flags .overflow, getFlag flags .equal, getFlag flags .largerThan,
    getFlag flags .lessThan]

/-- What a failed instruction has to leave alone. -/
structure Visible where
  general : Fin 16 → Word
  stackBase : Word
  stackPointer : Word
  codeBase : Word
  preservationSpace : Word
  arithmetic : List Bool
  memory : GuestMemory

def Machine.visible (machine : Machine) : Visible where
  general := machine.registers.FullyExtendedRegister
  stackBase := machine.registers.StackBase
  stackPointer := machine.registers.StackPointer
  codeBase := machine.registers.CodeBase
  preservationSpace := machine.registers.CurrentProcedureStackPreservationSpace
  arithmetic := arithmeticView machine.registers.FlagRegister
  memory := machine.memory

/-- The faults that are to be precise. -/
def Fault.Reported : Fault → Prop
  | .stackOverflow | .illegalMemoryAccess _ | .illegalInstruction _ => True
  | _ => False

/-- From this state, a program that ends in such a fault has changed nothing that is visible. -/
def Precise {α : Type} (x : CPU α) (machine : Machine) : Prop := Atomic Machine.visible Fault.Reported x machine

variable {α β : Type} {x : CPU α} {f : α → CPU β} {machine : Machine}

theorem precise_look (kept : Keeps id x) (next : ∀ a, x machine = .ok a machine → Precise (f a) machine) :
    Precise (x >>= f) machine := by
  apply atomic_bind (keeps_part kept Machine.visible)
  intro a after done
  obtain rfl := keeps_all_ok kept done
  exact next a done

/-- A look at the state that succeeds decides nothing. -/
theorem precise_look_iff {a : α} (done : x machine = .ok a machine) :
    Precise (x >>= f) machine ↔ Precise (f a) machine := by
  rw [Precise, Atomic, bind_ok done]
  exact Iff.rfl

theorem precise_of_returns (safe : thrown (x machine) = none) : Precise x machine := by
  obtain ⟨a, after, done⟩ := thrown_eq_none safe
  exact atomic_of_ok done

/-- An exception that comes without any effect. -/
theorem precise_of_error {fault : Fault} (failed : x machine = .error fault machine) : Precise x machine := by
  intro other after found _
  rw [failed] at found
  cases found
  rfl

theorem precise_of_unreported (quiet : ∀ fault, thrown (x machine) = some fault → ¬ fault.Reported) : Precise x machine := by
  intro fault after failed reported
  exact absurd reported (quiet fault (by rw [failed]; rfl))

/-- A program that cannot fail any more. -/
theorem precise_then (first : Precise x machine) (last : ∀ a after, x machine = .ok a after → thrown (f a after) = none) :
    Precise (x >>= f) machine := by
  apply atomic_bind_last first
  intro a after done fault final failed
  have safe := last a after done
  rw [failed] at safe
  cases safe

/-! ## Parts of procedures -/

theorem precise_setVal (arguments : Arguments) (index : ℕ) (value : Word) (machine : Machine) :
    Precise (arguments.setVal index value) machine := by
  apply precise_look (keeps_operand arguments index)
  intro operand _
  rcases operand.setVal_cases value machine with ⟨-, done⟩ | ⟨trouble, -, failed⟩
  · exact atomic_of_ok done
  · exact precise_of_error failed

theorem precise_pushStack (data : List Byte) (nonempty : 0 < data.length) (small : data.length < 2 ^ 63)
    (machine : Machine) : Precise (pushStack data) machine := by
  rcases pushStack_cases machine data nonempty small with ⟨-, done⟩ | ⟨-, failed⟩
  · exact atomic_of_ok done
  · exact precise_of_error failed

theorem precise_popStack (size : ℕ) (nonempty : 0 < size) (small : size < 2 ^ 63) (machine : Machine) :
    Precise (popStack size) machine := by
  rcases popStack_cases machine size nonempty small with ⟨-, _, done⟩ | ⟨-, failed⟩
  · exact atomic_of_ok done
  · exact precise_of_error failed

theorem precise_writeMemory {address size : Word} (source : List Byte) (length : source.length = size.toNat)
    (small : size.toNat < 2 ^ 63) (machine : Machine) : Precise (writeMemory address source size) machine := by
  rcases writeMemory_cases source length small with ⟨-, _, done, -⟩ | ⟨_, -, failed⟩
  · exact atomic_of_ok done
  · exact precise_of_error failed

/-- The breakpoint interruption notes the breakpoint before it finds that there is no room for its frame. -/
theorem precise_doInterruption (host : Host) (code : Word) (machine : Machine) :
    Precise (doInterruption host code) machine := by
  by_cases debug : code = 0x03
  · subst debug
    by_cases fits : machine.FrameFits
    · exact atomic_of_ok (doInterruption_debug fits)
    · intro fault after failed _
      have lookup := doInterruptionLookup_ok { machine with Int3DebugInterrupt := true }
        (show (0x03 : Word).toNat ≤ 0xFF by decide)
      have full := doPreserveCpuState_full
        (show ¬ Machine.FrameFits { machine with Int3DebugInterrupt := true } from fits)
      rw [doInterruption_builtIn (by decide) rfl, doInterruptionDebug, bind_ok (modify_apply _ machine), bind_ok lookup,
        bind_error full] at failed
      cases failed
      rfl
  · apply precise_of_unreported
    intro fault failed
    rw [doInterruption_thrown, interruptionTrouble] at failed
    split_ifs at failed <;> cases failed <;> exact id

theorem keeps_visible_of_processor (kept : Keeps Machine.processor x) : Keeps Machine.visible x :=
  keeps_part kept fun processor => Machine.visible { Machine.powerOn with registers := processor.1, memory := processor.2 }

/-! ## Procedures that are always precise -/

section Procedures

variable {host : Host} (arguments : Arguments) (machine : Machine)

theorem precise_mul : Precise (mul arguments) machine := by
  refine precise_look (keeps_operationWidth _ _) fun width selected => ?_
  refine precise_look (keeps_loadRegister _) fun base _ => precise_look (keeps_argument arguments 0) fun factor _ => ?_
  apply precise_of_returns
  exact (thrown_bind_safe fun _ _ _ => rfl).trans (checkOverflow_safe (operationWidth_ok selected) _ machine)

theorem precise_imul : Precise (imul arguments) machine := by
  refine precise_look (keeps_operationWidth _ _) fun width selected => ?_
  refine precise_look (keeps_loadFilled _) fun base _ => precise_look (keeps_argument arguments 0) fun factor _ => ?_
  apply precise_of_returns
  exact (thrown_bind_safe fun _ _ _ => rfl).trans (checkSigned_safe (operationWidth_ok selected) _ machine)

theorem precise_div : Precise (div host arguments) machine := by
  refine precise_look (keeps_operationWidth _ _) fun width selected => ?_
  refine precise_look (keeps_loadRegister _) fun base _ => precise_look (keeps_argument arguments 0) fun factor _ => ?_
  have known := operationWidth_ok selected
  split_ifs
  · exact precise_doInterruption host 0x01 machine
  · apply precise_of_returns
    refine (thrown_bind_safe fun _ after _ => ?_).trans (checkOverflow_safe known _ machine)
    exact (thrown_bind_safe fun _ _ _ => rfl).trans (checkOverflow_safe known _ after)

theorem precise_idiv : Precise (idiv host arguments) machine := by
  refine precise_look (keeps_operationWidth _ _) fun width selected => ?_
  refine precise_look (keeps_loadFilled _) fun base _ => precise_look (keeps_argument arguments 0) fun factor _ => ?_
  have known := operationWidth_ok selected
  split_ifs
  · exact precise_doInterruption host 0x01 machine
  · exact atomic_of_keeps (keeps_throw _) machine
  · apply precise_of_returns
    refine (thrown_bind_safe fun _ after _ => ?_).trans (checkSigned_safe known _ machine)
    exact (thrown_bind_safe fun _ _ _ => rfl).trans (checkSigned_safe known _ after)

theorem precise_neg : Precise (neg arguments) machine := by
  refine precise_look (keeps_argument arguments 0) fun operand1 _ => ?_
  refine precise_then (precise_setVal arguments 0 _ machine) fun _ after _ => ?_
  exact (thrown_bind_safe fun _ _ _ => rfl).trans (checkOverflow_safe rfl _ after)

theorem precise_cmp : Precise (cmp arguments) machine := by
  refine precise_look (keeps_argument arguments 0) fun operand1 _ => ?_
  refine precise_look (keeps_argument arguments 1) fun operand2 _ => ?_
  apply precise_of_returns
  exact (thrown_bind_ok rfl).trans ((thrown_bind_safe fun _ _ _ => rfl).trans (checkOverflow_safe rfl _ machine))

theorem precise_binaryLogic (operation : Word → Word → Word) : Precise (binaryLogic operation arguments) machine :=
  precise_look (keeps_argument arguments 0) fun _ _ => precise_look (keeps_argument arguments 1) fun _ _ =>
    precise_setVal arguments 0 _ machine

theorem precise_not : Precise (not_ arguments) machine :=
  precise_look (keeps_argument arguments 0) fun _ _ => precise_setVal arguments 0 _ machine

theorem precise_rotate (rotation : (bits : ℕ) → BitVec bits → ℕ → BitVec bits) :
    Precise (rotate rotation arguments) machine :=
  precise_look (keeps_argument arguments 0) fun _ _ => precise_look (keeps_argument arguments 1) fun _ _ =>
    precise_look (keeps_operationWidth _ _) fun _ _ => precise_setVal arguments 0 _ machine

theorem precise_mov : Precise (mov arguments) machine :=
  precise_look (keeps_argument arguments 1) fun _ _ => precise_setVal arguments 0 _ machine

theorem precise_lea : Precise (lea arguments) machine :=
  precise_look (keeps_operand arguments 1) fun _ _ => precise_setVal arguments 0 _ machine

theorem precise_push : Precise (push arguments) machine := by
  refine precise_look (keeps_argument arguments 0) fun operand1 _ => ?_
  refine precise_look (keeps_operationWidth _ _) fun width _ => ?_
  have length : (LittleEndian.bytes width.bytes operand1.toNat).length = width.bytes := LittleEndian.length_bytes ..
  exact precise_pushStack _ (by rw [length]; exact width.bytes_pos) (by rw [length]; exact width.bytes_lt) machine

theorem precise_pushall : Precise pushall machine := by
  have length := length_pushallData machine.registers
  refine (precise_look_iff (show getRegisters machine = .ok machine.registers machine from rfl)).mpr ?_
  exact precise_pushStack _ (by rw [length]; decide) (by rw [length]; decide) machine

theorem precise_popall : Precise popall machine :=
  precise_then (precise_popStack 192 (by decide) (by decide) machine) fun _ _ _ => rfl

theorem precise_enter : Precise (enter arguments) machine :=
  precise_look (keeps_argument arguments 0) fun _ _ => atomic_of_ok rfl

theorem precise_movs : Precise (movs host) machine := by
  refine precise_look keeps_getRegisters fun registers found => ?_
  refine precise_look (keeps_allocate host _) fun _ granted => ?_
  have small := allocated_small granted
  refine precise_look (keeps_readMemory _ _) fun buffer read => ?_
  exact precise_writeMemory buffer (by rw [readMemory_ok small read, FlatMemory.length_read]) small machine

theorem precise_jmp : Precise (jmp arguments) machine :=
  precise_look (keeps_argument arguments 0) fun _ _ => precise_look (keeps_argument arguments 1) fun _ _ =>
    atomic_of_ok rfl

theorem precise_jumpIf (condition : Word → Bool) : Precise (jumpIf condition arguments) machine := by
  refine precise_look keeps_getRegisters fun registers _ => ?_
  split_ifs
  · exact precise_jmp arguments machine
  · exact atomic_of_ok rfl

theorem precise_loop : Precise (loop arguments) machine := by
  refine precise_look (keeps_loadRegister FER3) fun count _ => ?_
  dsimp only
  split_ifs
  · exact precise_then (precise_jmp arguments machine) fun _ _ _ => rfl
  · exact atomic_of_ok rfl

theorem precise_int : Precise (int_ host arguments) machine :=
  precise_look (keeps_argument arguments 0) fun code _ => precise_doInterruption host code machine

theorem precise_iret : Precise iret machine :=
  precise_look keeps_getRegisters fun _ _ => precise_look (keeps_popMemoryFrom _ _ _) fun _ _ => atomic_of_ok rfl

theorem precise_in : Precise (in_ host arguments) machine := by
  refine precise_look (keeps_argument arguments 0) fun port _ => ?_
  refine atomic_bind (keeps_visible_of_processor (keeps_processor_hubIns host port)) fun device after _ => ?_
  refine atomic_bind (keeps_visible_of_processor (keeps_processor_popStream64 device port)) fun data last _ => ?_
  exact precise_setVal arguments 1 data last

theorem precise_out : Precise (out host arguments) machine :=
  precise_look (keeps_argument arguments 0) fun port _ => precise_look (keeps_argument arguments 1) fun _ _ =>
    atomic_of_keeps (keeps_visible_of_processor (keeps_processor_hubOuts host port _)) machine

theorem precise_ins : Precise (ins host arguments) machine := by
  refine precise_look keeps_getRegisters fun registers _ => ?_
  refine precise_look (keeps_argument arguments 0) fun port _ => ?_
  refine atomic_bind (keeps_visible_of_processor (keeps_processor_hubIns host port)) fun device after _ => ?_
  refine precise_look keeps_get fun current _ => ?_
  dsimp only
  split_ifs with mismatch
  · exact atomic_of_keeps (keeps_throw _) after
  · refine precise_look (keeps_allocate host _) fun _ granted => ?_
    have small := allocated_small granted
    have length := not_not.mp mismatch
    rw [length] at small
    refine atomic_bind (keeps_visible_of_processor (keeps_processor_setStream device port [])) fun _ last _ => ?_
    exact precise_writeMemory _ length small last

theorem precise_outs : Precise (outs host arguments) machine :=
  precise_look keeps_getRegisters fun _ _ => precise_look (keeps_argument arguments 0) fun port _ =>
    precise_look (keeps_allocate host _) fun _ _ => precise_look (keeps_readMemory _ _) fun _ _ =>
      atomic_of_keeps (keeps_visible_of_processor (keeps_processor_hubOuts host port _)) machine

end Procedures

/-! ## Procedures that store twice -/

def Arguments.IsConstant (arguments : Arguments) (index : ℕ) : Prop :=
  ∃ value width, arguments.operands[index]? = some (.constant value width)

section Commits

variable (arguments : Arguments) (machine : Machine)

/-- What can be read can be stored to, unless it is a constant. -/
theorem writes_of_reads {index : ℕ} (read : arguments.reads machine index = none) (place : ¬ arguments.IsConstant index) :
    arguments.writes machine index = none := by
  rw [Arguments.reads, Arguments.check] at read
  rw [Arguments.writes, Arguments.check]
  cases found : arguments.operands[index]? with
  | none =>
    rw [found] at read
    cases read
  | some operand =>
    rw [found] at read
    cases operand with
    | register widthBCD code => exact read
    | constant value width => exact absurd ⟨value, width, found⟩ place
    | memory address widthBCD =>
      simp only [Operand.readTrouble, Operand.writeTrouble] at read ⊢
      cases known : Width.ofBcd widthBCD with
      | none => simp [known] at read
      | some width =>
        simp only [known] at read ⊢
        split_ifs at read ⊢ with inside
        rfl

theorem setVal_constant {index : ℕ} (constant : arguments.IsConstant index) (value : Word) :
    arguments.setVal index value machine = .error (.illegalInstruction "Unknown error!") machine := by
  obtain ⟨literal, width, found⟩ := constant
  simp only [Arguments.setVal, Arguments.operand, found]
  rfl

theorem reads_constant {index : ℕ} (constant : arguments.IsConstant index) : arguments.reads machine index = none := by
  obtain ⟨literal, width, found⟩ := constant
  rw [Arguments.reads, Arguments.check, found]
  rfl

/-- The machine with other flags. -/
def Machine.withFlags (machine : Machine) (flags : Word) : Machine :=
  { machine with registers := { machine.registers with FlagRegister := flags } }

theorem loadFlag_apply (flag : Flag) (machine : Machine) :
    loadFlag flag machine = .ok (getFlag machine.registers.FlagRegister flag) machine := rfl

theorem getRegisters_apply (machine : Machine) : getRegisters machine = .ok machine.registers machine := rfl

theorem storeFlags_apply (flags : Word) (machine : Machine) : storeFlags flags machine = .ok () (machine.withFlags flags) :=
  rfl

/-- The flags are set, and then the result is stored. -/
theorem precise_flags_iff {α : Type} {x : CPU α} {f : α → CPU Unit} {a : α} {flags value : Word}
    (done : x machine = .ok a (machine.withFlags flags)) (tail : f a = arguments.setVal 0 value)
    (read : arguments.reads machine 0 = none) :
    Precise (x >>= f) machine ↔
      ¬ (arguments.IsConstant 0 ∧ arithmeticView flags ≠ arithmeticView machine.registers.FlagRegister) := by
  have same : Precise (x >>= f) machine ↔ ∀ fault after,
      arguments.setVal 0 value (machine.withFlags flags) = .error fault after → fault.Reported →
        after.visible = machine.visible := by
    rw [Precise, Atomic, bind_ok done, tail]
  rw [same]
  by_cases constant : arguments.IsConstant 0
  · simp only [setVal_constant _ _ constant, constant, true_and, not_not]
    constructor
    · intro precise
      exact congrArg Visible.arithmetic (precise _ _ rfl trivial)
    · rintro kept fault after failed -
      cases failed
      simp only [Machine.visible, Machine.withFlags, kept]
  · have safe := arguments.setVal_thrown 0 value (machine.withFlags flags)
    have sized : (machine.withFlags flags).memory.total = machine.memory.total := rfl
    rw [arguments.writes_congr sized, writes_of_reads arguments machine read constant] at safe
    refine ⟨fun _ committed => constant committed.1, fun _ fault after failed => ?_⟩
    rw [failed] at safe
    cases safe

/-- The carry of a result: it does not fit the operation width. -/
def overflows (width : Width) (value : Word) : Bool := (value.setWidth width.bits).setWidth 64 != value

theorem arithmeticView_arithmeticFlags (flags : Word) (carry overflow : Bool) :
    arithmeticView (arithmeticFlags flags carry overflow) = [carry, overflow, false, false, false] := by
  simp [arithmeticView, arithmeticFlags, getFlag_setFlag]

/-- The flags that a result sets are not those that are set. -/
def FlagsChange (machine : Machine) (width : Width) (value : Word) : Prop :=
  arithmeticView machine.registers.FlagRegister ≠ [overflows width value, false, false, false, false]

theorem precise_checked_iff (value : Word) (read : arguments.reads machine 0 = none) :
    Precise (do let result ← checkOverflow arguments.width value; arguments.setVal 0 result) machine ↔
      ¬ (arguments.IsConstant 0 ∧ ∃ width, Width.ofBcd arguments.width = some width ∧ FlagsChange machine width value) := by
  cases known : Width.ofBcd arguments.width with
  | none =>
    have failed : checkOverflow arguments.width value machine =
        .error (.illegalInstruction "Invalid operation width") machine :=
      bind_error (operationWidth_unknown _ known machine)
    constructor
    · rintro - ⟨-, width, found, -⟩
      cases found
    · intro _
      exact precise_of_error (bind_error failed)
  | some width =>
    have checked := checkOverflow_apply width value machine
    rw [Width.bcd_of_ofBcd known] at checked
    rw [precise_flags_iff arguments machine checked rfl read, arithmeticView_arithmeticFlags]
    simp only [Option.some.injEq, exists_eq_left', FlagsChange, overflows]
    rw [ne_comm]

/-- An operand that has to be readable for a part to be committed. -/
theorem precise_read_iff {β : Type} {index : ℕ} {f : Word → CPU β} {committed : Prop}
    (needs : committed → arguments.reads machine index = none)
    (next : ∀ value, arguments.getVal index machine = .ok value machine → (Precise (f value) machine ↔ ¬ committed)) :
    Precise (arguments.getVal index >>= f) machine ↔ ¬ committed := by
  rcases keeps_all_cases (keeps_argument arguments index) machine with ⟨value, read⟩ | ⟨fault, failed⟩
  · rw [precise_look_iff read]
    exact next value read
  · refine ⟨fun _ part => ?_, fun _ => precise_of_error (bind_error failed)⟩
    obtain ⟨value, read⟩ := (reads_none_iff arguments machine index).mp (needs part)
    rw [failed] at read
    cases read

/-- `add`, `adc`, `sub` and `sbb` to a constant. -/
theorem binaryArithmetic_precise_iff (operation : Word → Word → Word → Word) :
    Precise (binaryArithmetic operation arguments) machine ↔
      ¬ (arguments.IsConstant 0 ∧ arguments.reads machine 1 = none ∧
        ∃ width, Width.ofBcd arguments.width = some width ∧
          FlagsChange machine width (operation (arguments.value machine 0) (arguments.value machine 1)
            (if getFlag machine.registers.FlagRegister .carry then 1 else 0))) := by
  refine precise_read_iff arguments machine (fun part => reads_constant arguments machine part.1) fun operand1 first => ?_
  refine precise_read_iff arguments machine (fun part => part.2.1) fun operand2 second => ?_
  have fine := (reads_none_iff arguments machine 0).mpr ⟨operand1, first⟩
  have fine' := (reads_none_iff arguments machine 1).mpr ⟨operand2, second⟩
  rw [Arguments.value_of_ok first, Arguments.value_of_ok second, fine']
  refine (precise_look_iff (loadFlag_apply .carry machine)).trans ((precise_checked_iff arguments machine _ fine).trans ?_)
  simp only [true_and]

/-- `inc` and `dec` of a constant. -/
theorem unaryArithmetic_precise_iff (operation : Word → Word) :
    Precise (unaryArithmetic operation arguments) machine ↔
      ¬ (arguments.IsConstant 0 ∧ ∃ width, Width.ofBcd arguments.width = some width ∧
        FlagsChange machine width (operation (arguments.value machine 0))) := by
  refine precise_read_iff arguments machine (fun part => reads_constant arguments machine part.1) fun operand1 first => ?_
  have fine := (reads_none_iff arguments machine 0).mpr ⟨operand1, first⟩
  rw [Arguments.value_of_ok first]
  exact precise_checked_iff arguments machine _ fine

/-- The carry after the turns of `rcl` and `rcr`. -/
def turnedCarry (turn : {bits : ℕ} → BitVec bits → Bool → BitVec bits × Bool) (machine : Machine) (width : Width)
    (operand1 operand2 : Word) : Bool :=
  (rotateTurns turn (operand2.toNat % 2 ^ 32 % (width.bits + 1)) (operand1.setWidth width.bits)
    (getFlag machine.registers.FlagRegister .carry)).2

theorem arithmeticView_carry_iff (flags : Word) (carry : Bool) :
    arithmeticView (setFlag flags .carry carry) ≠ arithmeticView flags ↔ carry ≠ getFlag flags .carry := by
  simp [arithmeticView, getFlag_setFlag]

/-- `rcl` and `rcr` of a constant. -/
theorem rotateCarry_precise_iff (turn : {bits : ℕ} → BitVec bits → Bool → BitVec bits × Bool) :
    Precise (rotateCarry turn arguments) machine ↔
      ¬ (arguments.IsConstant 0 ∧ arguments.reads machine 1 = none ∧
        ∃ width, Width.ofBcd arguments.width = some width ∧
          turnedCarry turn machine width (arguments.value machine 0) (arguments.value machine 1) ≠
            getFlag machine.registers.FlagRegister .carry) := by
  refine precise_read_iff arguments machine (fun part => reads_constant arguments machine part.1) fun operand1 first => ?_
  refine precise_read_iff arguments machine (fun part => part.2.1) fun operand2 second => ?_
  have fine := (reads_none_iff arguments machine 0).mpr ⟨operand1, first⟩
  have fine' := (reads_none_iff arguments machine 1).mpr ⟨operand2, second⟩
  rw [Arguments.value_of_ok first, Arguments.value_of_ok second, fine']
  refine (precise_look_iff (loadFlag_apply .carry machine)).trans ?_
  cases known : Width.ofBcd arguments.width with
  | none =>
    constructor
    · rintro - ⟨-, -, width, found, -⟩
      cases found
    · intro _
      exact precise_of_error (bind_error (operationWidth_unknown _ known machine))
  | some width =>
    have selected := operationWidth_known "Unknown width" known machine
    refine (precise_look_iff selected).trans ?_
    simp only [Option.some.injEq, exists_eq_left', true_and, turnedCarry]
    generalize operand2.toNat % 2 ^ 32 % (width.bits + 1) = turns
    rw [← arithmeticView_carry_iff]
    refine (precise_look_iff (getRegisters_apply machine)).trans ?_
    exact precise_flags_iff arguments machine (storeFlags_apply _ machine) rfl fine

/-- A store that shows. -/
def Arguments.StoreShows (arguments : Arguments) (machine : Machine) (index : ℕ) (value : Word) : Prop :=
  ∃ operand, arguments.operands[index]? = some operand ∧ operand.writeTrouble machine = none ∧
    (operand.stored machine value).visible ≠ machine.visible

/-- `xchg` with a constant. -/
theorem xchg_precise_iff :
    Precise (xchg arguments) machine ↔
      ¬ (arguments.reads machine 0 = none ∧ arguments.IsConstant 1 ∧
        arguments.StoreShows machine 0 (arguments.value machine 1)) := by
  refine precise_read_iff arguments machine (fun part => part.1) fun operand1 first => ?_
  refine precise_read_iff arguments machine (fun part => reads_constant arguments machine part.2.1) fun operand2 second => ?_
  have fine := (reads_none_iff arguments machine 1).mpr ⟨operand2, second⟩
  rw [Arguments.value_of_ok second, (reads_none_iff arguments machine 0).mpr ⟨operand1, first⟩]
  obtain ⟨operand, place, found, -⟩ := bind_eq_ok.mp first
  obtain rfl := keeps_all_ok (keeps_operand arguments 0) found
  have target : arguments.operands[0]? = some operand := by
    rw [Arguments.operand] at found
    cases known : arguments.operands[0]? with
    | none =>
      rw [known] at found
      cases found
    | some other =>
      rw [known] at found
      cases found
      rfl
  have store : arguments.setVal 0 operand2 place = operand.setVal operand2 place := by
    rw [Arguments.setVal, bind_ok found]
  simp only [Arguments.StoreShows, target, Option.some.injEq, exists_eq_left', true_and]
  rcases operand.setVal_cases operand2 place with ⟨writable, stored⟩ | ⟨trouble, refused, failed⟩
  · have same : Precise (do arguments.setVal 0 operand2; arguments.setVal 1 operand1) place ↔ ∀ fault after,
        arguments.setVal 1 operand1 (operand.stored place operand2) = .error fault after → fault.Reported →
          after.visible = place.visible := by
      rw [Precise, Atomic, bind_ok (store.trans stored)]
    rw [same]
    by_cases constant : arguments.IsConstant 1
    · simp only [setVal_constant _ _ constant, constant, writable, true_and, not_not]
      constructor
      · intro precise
        exact precise _ _ rfl trivial
      · rintro kept fault after failed -
        cases failed
        exact kept
    · have safe := arguments.setVal_thrown 1 operand1 (operand.stored place operand2)
      rw [arguments.writes_congr (operand.stored_total place operand2),
        writes_of_reads arguments place fine constant] at safe
      refine ⟨fun _ committed => constant committed.1, fun _ fault after failed => ?_⟩
      rw [failed] at safe
      cases safe
  · refine ⟨fun _ committed => ?_, fun _ => precise_of_error (bind_error (store.trans failed))⟩
    rw [refused] at committed
    cases committed.2.1

/-- A stack pointer that moved. -/
theorem moved_ne (machine after : Machine) (distance : Word) (apart : distance ≠ 0)
    (moved : after.registers.StackPointer = machine.registers.StackPointer + distance) :
    after.visible ≠ machine.visible := by
  intro same
  have pointer : after.registers.StackPointer = machine.registers.StackPointer := congrArg Visible.stackPointer same
  rw [moved] at pointer
  exact apart (by simpa using pointer)

/-- Some exception that is to be precise follows. -/
def FaultFollows (steps : List (Option Trouble)) : Prop := ∃ fault, raisedBy steps = some fault ∧ fault.Reported

theorem setArgument_error {arguments : Arguments} {machine after : Machine} {index : ℕ} {value : Word} {fault : Fault}
    (failed : arguments.setVal index value machine = .error fault after) : after = machine := by
  rcases bind_eq_error.mp failed with early | ⟨operand, middle, found, late⟩
  · have same := (keeps_operand arguments index : Keeps id _) machine
    rw [early] at same
    exact same
  · obtain rfl := keeps_all_ok (keeps_operand arguments index) found
    rcases operand.setVal_cases value middle with ⟨-, done⟩ | ⟨trouble, -, refused⟩
    · rw [late] at done
      cases done
    · rw [late] at refused
      cases refused
      rfl

/-- Once a part is committed, an instruction is precise exactly if nothing that is to be precise follows. -/
theorem precise_committed_iff {rest : CPU Unit} {steps : List (Option Trouble)} {middle : Machine} {a : α}
    {next : α → CPU Unit} (first : x machine = .ok a middle) (continues : next a = rest)
    (ends : thrown (rest middle) = raisedBy steps)
    (moves : ∀ fault after, rest middle = .error fault after → after.visible ≠ machine.visible) :
    Precise (x >>= next) machine ↔ ¬ FaultFollows steps := by
  rw [Precise, Atomic, bind_ok first, continues, FaultFollows, ← ends]
  constructor
  · rintro precise ⟨fault, failed, reported⟩
    obtain ⟨after, failed⟩ := thrown_eq_some failed
    exact moves fault after failed (precise fault after failed reported)
  · intro quiet fault after failed reported
    exact absurd ⟨fault, by rw [failed]; rfl, reported⟩ quiet

theorem width_ne_zero (width : Width) : BitVec.ofNat 64 width.bytes ≠ 0 := by
  cases width <;> decide

/-- What is popped and cannot be stored is lost. -/
theorem pop_precise_iff :
    Precise (pop arguments) machine ↔
      ¬ ∃ width, Width.ofBcd arguments.width = some width ∧
        popTrouble machine machine.registers.StackPointer width.bytes = none ∧
        FaultFollows [arguments.writes machine 0] := by
  cases known : Width.ofBcd arguments.width with
  | none =>
    constructor
    · rintro - ⟨width, found, -⟩
      cases found
    · intro _
      exact precise_of_error (bind_error (operationWidth_unknown _ known machine))
  | some width =>
    have selected := operationWidth_known "Unknown width" known machine
    rw [pop, precise_look_iff selected]
    simp only [Option.some.injEq, exists_eq_left']
    rcases popStack_cases machine width.bytes width.bytes_pos width.bytes_lt with ⟨room, data, popped⟩ | ⟨full, failed⟩
    · rw [room]
      simp only [true_and]
      have ends := arguments.setVal_thrown 0 (BitVec.ofNat 64 (LittleEndian.value data)) (machine.popped width.bytes)
      rw [arguments.writes_congr (show (machine.popped width.bytes).memory.total = machine.memory.total from rfl)] at ends
      apply precise_committed_iff machine popped rfl (thrown_last ends)
      intro fault after failed
      obtain rfl := setArgument_error failed
      exact moved_ne machine _ _ (width_ne_zero width) rfl
    · refine ⟨fun _ committed => ?_, fun _ => precise_of_error (bind_error failed)⟩
      rw [full] at committed
      cases committed.1

theorem jmp_error {arguments : Arguments} {machine after : Machine} {fault : Fault}
    (failed : jmp arguments machine = .error fault after) : after = machine := by
  have looks : Keeps id (do let _ ← arguments.getVal 0; arguments.getVal 1) :=
    keeps_bind (keeps_argument arguments 0) fun _ => keeps_argument arguments 1
  have same := looks machine
  rcases bind_eq_error.mp failed with early | ⟨base, middle, first, late⟩
  · rw [bind_error early] at same
    exact same
  · rcases bind_eq_error.mp late with second | ⟨ip, last, _, impossible⟩
    · rw [bind_ok first, second] at same
      exact same
    · cases impossible

theorem pushWord_error {value : Word} {machine after : Machine} {fault : Fault}
    (failed : pushWord value machine = .error fault after) : after = machine := by
  rcases pushStack_cases machine (LittleEndian.bytes 8 value.toNat) (by rw [length_word]; decide)
    (by rw [length_word]; decide) with ⟨-, pushed⟩ | ⟨-, refused⟩
  · rw [pushWord, pushed] at failed
    cases failed
  · rw [pushWord, refused] at failed
    cases failed
    rfl

/-- The second push and the operands come after the first push. -/
theorem call_precise_iff :
    Precise (call arguments) machine ↔
      ¬ (pushTrouble machine machine.registers.StackPointer 8 = none ∧
        FaultFollows [pushTrouble machine (machine.registers.StackPointer - 8) 8, arguments.reads machine 0,
          arguments.reads machine 1]) := by
  rw [call, precise_look_iff (getRegisters_apply machine)]
  have length : (LittleEndian.bytes 8 machine.registers.CodeBase.toNat).length = 8 := length_word _
  rcases pushStack_cases machine (LittleEndian.bytes 8 machine.registers.CodeBase.toNat) (by rw [length]; decide)
    (by rw [length]; decide) with ⟨room, pushed⟩ | ⟨full, failed⟩
  · rw [length] at room
    simp only [room, true_and]
    apply precise_committed_iff machine pushed rfl
    · have second := pushWord_thrown (machine.pushed (LittleEndian.bytes 8 machine.registers.CodeBase.toNat))
        machine.registers.InstructionPointer
      rw [pushed_pointer] at second
      refine thrown_step second fun _ last done => ?_
      obtain rfl := pushWord_ok done
      exact jmp_thrown arguments _
    · intro fault after failed
      rcases bind_eq_error.mp failed with early | ⟨_, last, done, late⟩
      · obtain rfl := pushWord_error early
        apply moved_ne machine _ (-8) (by decide)
        rw [pushed_pointer, BitVec.sub_eq_add_neg]
      · obtain rfl := pushWord_ok done
        obtain rfl := jmp_error late
        apply moved_ne machine _ (-16) (by decide)
        rw [pushed_pointer, pushed_pointer, BitVec.sub_eq_add_neg, BitVec.sub_eq_add_neg, BitVec.add_assoc]
        rfl
  · rw [length] at full
    refine ⟨fun _ committed => ?_, fun _ => precise_of_error (bind_error failed)⟩
    rw [full] at committed
    cases committed.1

theorem popWord_error {machine after : Machine} {fault : Fault} (failed : popWord machine = .error fault after) :
    after = machine := by
  rcases bind_eq_error.mp failed with early | ⟨data, middle, _, impossible⟩
  · rcases popStack_cases machine 8 (by decide) (by decide) with ⟨-, _, popped⟩ | ⟨-, refused⟩
    · rw [early] at popped
      cases popped
    · rw [early] at refused
      cases refused
      rfl
  · cases impossible

/-- The second pop comes after the first. -/
theorem ret_precise_iff :
    Precise ret machine ↔
      ¬ (popTrouble machine machine.registers.StackPointer 8 = none ∧
        FaultFollows [popTrouble machine (machine.registers.StackPointer + 8) 8]) := by
  have first := popWord_thrown machine
  cases known : popTrouble machine machine.registers.StackPointer 8 with
  | none =>
    rw [known] at first
    obtain ⟨ip, middle, done⟩ := thrown_eq_none first
    obtain rfl := popWord_ok done
    simp only [true_and]
    apply precise_committed_iff machine done rfl
    · exact thrown_last ((thrown_bind_safe fun _ _ _ => rfl).trans (popWord_thrown (machine.popped 8)))
    · intro fault after failed
      rcases bind_eq_error.mp failed with early | ⟨_, last, _, impossible⟩
      · obtain rfl := popWord_error early
        exact moved_ne machine _ 8 (by decide) rfl
      · cases impossible
  | some trouble =>
    rw [known] at first
    obtain ⟨after, failed⟩ := thrown_eq_some first
    obtain rfl := popWord_error failed
    refine ⟨fun _ committed => ?_, fun _ => precise_of_error (bind_error failed)⟩
    cases committed.1

/-- A part is committed before a fault: the second transfer of `call` and `ret`, what `pop` and `xchg` store
after they have moved the stack pointer or stored already, and flags that are set for a constant target. -/
def Mnemonic.Commits (machine : Machine) (arguments : Arguments) : Mnemonic → Prop
  | .call =>
    pushTrouble machine machine.registers.StackPointer 8 = none ∧
      FaultFollows [pushTrouble machine (machine.registers.StackPointer - 8) 8, arguments.reads machine 0,
        arguments.reads machine 1]
  | .ret =>
    popTrouble machine machine.registers.StackPointer 8 = none ∧
      FaultFollows [popTrouble machine (machine.registers.StackPointer + 8) 8]
  | .pop =>
    ∃ width, Width.ofBcd arguments.width = some width ∧
      popTrouble machine machine.registers.StackPointer width.bytes = none ∧
      FaultFollows [arguments.writes machine 0]
  | .xchg =>
    arguments.reads machine 0 = none ∧ arguments.IsConstant 1 ∧
      arguments.StoreShows machine 0 (arguments.value machine 1)
  | .add => changes fun operand1 operand2 _ => operand1 + operand2
  | .adc => changes fun operand1 operand2 carry => operand1 + operand2 + carry
  | .sub => changes fun operand1 operand2 _ => operand1 - operand2
  | .sbb => changes fun operand1 operand2 carry => operand1 - operand2 - carry
  | .inc => changesOne fun operand1 => operand1 + 1
  | .dec => changesOne fun operand1 => operand1 - 1
  | .rcl => turns rclStep
  | .rcr => turns rcrStep
  | _ => False
where
  changes (operation : Word → Word → Word → Word) : Prop :=
    arguments.IsConstant 0 ∧ arguments.reads machine 1 = none ∧
      ∃ width, Width.ofBcd arguments.width = some width ∧
        FlagsChange machine width (operation (arguments.value machine 0) (arguments.value machine 1)
          (if getFlag machine.registers.FlagRegister .carry then 1 else 0))
  changesOne (operation : Word → Word) : Prop :=
    arguments.IsConstant 0 ∧ ∃ width, Width.ofBcd arguments.width = some width ∧
      FlagsChange machine width (operation (arguments.value machine 0))
  turns (turn : {bits : ℕ} → BitVec bits → Bool → BitVec bits × Bool) : Prop :=
    arguments.IsConstant 0 ∧ arguments.reads machine 1 = none ∧
      ∃ width, Width.ofBcd arguments.width = some width ∧
        turnedCarry turn machine width (arguments.value machine 0) (arguments.value machine 1) ≠
          getFlag machine.registers.FlagRegister .carry

/-- The instruction commits a part and then faults. -/
def CommitsPart (machine : Machine) (instruction : ActiveInstruction) : Prop :=
  ∃ mnemonic, findOpcode instruction.opcode = some mnemonic ∧
    mnemonic.Commits machine { width := instruction.width, operands := instruction.operands }

private theorem always {p : Prop} (holds : p) : p ↔ ¬ False := ⟨fun _ => id, fun _ => holds⟩

theorem procedure_precise_iff {host : Host} {mnemonic : Mnemonic} {procedure : Arguments → CPU Unit}
    (registered : executorMap host mnemonic = some procedure) :
    Precise (procedure arguments) machine ↔ ¬ mnemonic.Commits machine arguments := by
  cases mnemonic with
  | jc | jnc | jo | jno => cases registered
  | nop | hlt | igni | alwi | leave =>
    cases registered
    exact always (atomic_of_ok rfl)
  | add | adc | sub | sbb =>
    cases registered
    exact binaryArithmetic_precise_iff arguments machine _
  | imul =>
    cases registered
    exact always (precise_imul arguments machine)
  | mul =>
    cases registered
    exact always (precise_mul arguments machine)
  | idiv =>
    cases registered
    exact always (precise_idiv arguments machine)
  | div =>
    cases registered
    exact always (precise_div arguments machine)
  | neg =>
    cases registered
    exact always (precise_neg arguments machine)
  | cmp =>
    cases registered
    exact always (precise_cmp arguments machine)
  | inc | dec =>
    cases registered
    exact unaryArithmetic_precise_iff arguments machine _
  | and | or | xor | shl | shr =>
    cases registered
    exact always (precise_binaryLogic arguments machine _)
  | not =>
    cases registered
    exact always (precise_not arguments machine)
  | rol | ror =>
    cases registered
    exact always (precise_rotate arguments machine _)
  | rcl | rcr =>
    cases registered
    exact rotateCarry_precise_iff arguments machine _
  | mov =>
    cases registered
    exact always (precise_mov arguments machine)
  | xchg =>
    cases registered
    exact xchg_precise_iff arguments machine
  | push =>
    cases registered
    exact always (precise_push arguments machine)
  | pop =>
    cases registered
    exact pop_precise_iff arguments machine
  | pushall =>
    cases registered
    exact always (precise_pushall machine)
  | popall =>
    cases registered
    exact always (precise_popall machine)
  | enter =>
    cases registered
    exact always (precise_enter arguments machine)
  | movs =>
    cases registered
    exact always (precise_movs machine)
  | lea =>
    cases registered
    exact always (precise_lea arguments machine)
  | jmp =>
    cases registered
    exact always (precise_jmp arguments machine)
  | call =>
    cases registered
    exact call_precise_iff arguments machine
  | ret =>
    cases registered
    exact ret_precise_iff machine
  | je | jne | jb | jl | jbe | jle =>
    cases registered
    exact always (precise_jumpIf arguments machine _)
  | int =>
    cases registered
    exact always (precise_int arguments machine)
  | int3 =>
    cases registered
    exact always (precise_doInterruption host 0x03 machine)
  | iret =>
    cases registered
    exact always (precise_iret machine)
  | loop =>
    cases registered
    exact always (precise_loop arguments machine)
  | in_ =>
    cases registered
    exact always (precise_in arguments machine)
  | out =>
    cases registered
    exact always (precise_out arguments machine)
  | ins =>
    cases registered
    exact always (precise_ins arguments machine)
  | outs =>
    cases registered
    exact always (precise_outs arguments machine)

end Commits

/-- Faults are precise, in every state and for every instruction, exactly if it does not commit a part first. -/
theorem faults_precise_iff (host : Host) (instruction : ActiveInstruction) (machine : Machine) :
    Precise (dispatch host instruction) machine ↔ ¬ CommitsPart machine instruction := by
  obtain ⟨opcode, width, operands⟩ := instruction
  cases found : findOpcode opcode with
  | none =>
    have missing : dispatch host ⟨opcode, width, operands⟩ machine = .error .outOfRange machine := by
      simp only [dispatch, lookupProcedure, found, Option.bind_none]
      rfl
    refine ⟨?_, fun _ => precise_of_error missing⟩
    rintro - ⟨mnemonic, known, -⟩
    simp only [found] at known
    cases known
  | some mnemonic =>
    have unique : CommitsPart machine ⟨opcode, width, operands⟩ ↔ mnemonic.Commits machine ⟨width, operands⟩ := by
      simp only [CommitsPart, found, Option.some.injEq, exists_eq_left']
    obtain rfl := opcode_of_findOpcode found
    rw [unique]
    cases registered : executorMap host mnemonic with
    | none =>
      have missing : dispatch host ⟨mnemonic.opcode, width, operands⟩ machine = .error .outOfRange machine := by
        simp only [dispatch, lookupProcedure, findOpcode_opcode, Option.bind_some, registered]
        rfl
      have nothing : ¬ mnemonic.Commits machine ⟨width, operands⟩ := by
        cases mnemonic with
        | jc | jnc | jo | jno => exact id
        | _ => cases registered
      exact ⟨fun _ => nothing, fun _ => precise_of_error missing⟩
    | some procedure =>
      rw [dispatch_registered registered]
      exact procedure_precise_iff _ machine registered

/-- `RET` at the start of the BIOS, with one word left above the stack pointer. -/
def Machine.returning : Machine :=
  let loaded := Machine.powerOn.overwrite BIOS_START [Mnemonic.ret.opcode]
  { loaded with registers := { loaded.registers with StackPointer := 0xFFFF8 } }

/-- `RET` keeps the word that it has popped when the second one is not there. -/
theorem not_precise_ret :
    ¬ ∀ (host : Host) (before : Machine) (instruction : ActiveInstruction) (machine : Machine),
      fetch before = .ok instruction machine → Precise (dispatch host instruction) machine := by
  intro every
  have code : Machine.returning.Code [Mnemonic.ret.opcode] := by
    rw [Machine.Code]
    decide +kernel
  obtain ⟨after, fetched⟩ := Machine.at_of_code code rfl rfl
  obtain ⟨registers, memory⟩ := Machine.registers_of_core (fetch_core fetched)
  have base : after.registers.StackBase = 0 := congrArg Registers.StackBase registers
  have pointer : after.registers.StackPointer = 0xFFFF8 := congrArg Registers.StackPointer registers
  have total : after.memory.total = 0x100000 := congrArg GuestMemory.total memory
  have precise := every Host.ample _ _ _ fetched
  rw [dispatch_registered (show executorMap Host.ample .ret = some fun _ => ret from rfl), ret_precise_iff] at precise
  apply precise
  simp only [popTrouble, base, pointer, total]
  exact ⟨by decide, .stackOverflow, rfl, trivial⟩

end Sysdarft
