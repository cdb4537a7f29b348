import Sysdarft.Proofs.InterruptionMask
import Sysdarft.Proofs.OperandFrame
import Sysdarft.Proofs.PreciseFaults
import Sysdarft.Proofs.SignedArithmetic

/-! # Flags and their history

Two states that differ in the arithmetic flags only execute the same arithmetic instruction. Once it
has checked a value, nothing is left of the old flags. `cmp` is the exception: it stores the copy that it
took before the check, with new comparison flags and the old carry and overflow. An instruction that
never gets to a check leaves the flags as they were.
-/

namespace Sysdarft

open Effects

/-- The instructions that assign the arithmetic flags. -/
inductive ArithmeticOperation where
  | add | adc | sub | sbb | mul | imul | div | idiv | neg | inc | dec | cmp
deriving DecidableEq, Repr

namespace ArithmeticOperation

def mnemonic : ArithmeticOperation → Mnemonic
  | add => .add
  | adc => .adc
  | sub => .sub
  | sbb => .sbb
  | mul => .mul
  | imul => .imul
  | div => .div
  | idiv => .idiv
  | neg => .neg
  | inc => .inc
  | dec => .dec
  | cmp => .cmp

/-- The instruction; operations with one operand leave the second one out. -/
def instruction (operation : ArithmeticOperation) (width : Width) (operand1 operand2 : Operand) : ActiveInstruction :=
  match operation with
  | add | adc | sub | sbb | cmp => operation.mnemonic.sized width [operand1, operand2]
  | _ => operation.mnemonic.sized width [operand1]

/-- The operations that compute with the carry. -/
def usesCarry : ArithmeticOperation → Bool
  | adc | sbb => true
  | _ => false

/-- The instruction gets to the check that assigns the flags: its operands are readable, it divides by a
divisor that is not zero and does not trap, and it has a place to negate. -/
def Settles (operation : ArithmeticOperation) (width : Width) (operand1 operand2 : Operand) (machine : Machine) : Prop :=
  ∃ value, operand1.reading machine = some value ∧
    match operation with
    | add | adc | sub | sbb | cmp => ∃ other, operand2.reading machine = some other
    | div => value ≠ 0
    | idiv => value ≠ 0 ∧ ¬ (filledBase machine.registers width = BitVec.intMin 64 ∧ value = -1)
    | neg => ∀ number code, operand1 ≠ .constant number code
    | mul | imul | inc | dec => True

end ArithmeticOperation

variable {host : Host} {operation : ArithmeticOperation} {width : Width} {operand1 operand2 : Operand}
  {machine : Machine} {value other : Word}

/-! ## States that differ in the arithmetic flags -/

def Machine.arithmetic (machine : Machine) : List Bool := arithmeticView machine.flags

@[simp] theorem Machine.reading_flagged (operand : Operand) (machine : Machine) (carry overflow : Bool) :
    operand.reading (machine.flagged carry overflow) = operand.reading machine := by
  have same : (machine.flagged carry overflow).readable = machine.readable := rfl
  exact Operand.reading_congr same operand

@[simp] theorem Machine.carry_flagged (machine : Machine) (carry overflow : Bool) :
    (machine.flagged carry overflow).carry = carry := by
  rw [Machine.carry, Machine.flagged, getFlag, getLsbD_arithmeticFlags]
  rfl

theorem Operand.reading_eq_none {operand : Operand} :
    operand.reading machine = none ↔ ∃ fault, operand.getVal machine = .error fault machine := by
  rw [Operand.reading]
  rcases keeps_all_cases (keeps_getVal operand) machine with ⟨found, success⟩ | ⟨fault, failed⟩
  · rw [success]
    simp
  · rw [failed]
    simp

/-- A value that is known in a state is known in the state with other flags. -/
theorem getVal_flagged {operand : Operand} (known : operand.getVal machine = .ok value machine) (carry overflow : Bool) :
    operand.getVal (machine.flagged carry overflow) = .ok value (machine.flagged carry overflow) := by
  rw [← Operand.reading_eq_some, Machine.reading_flagged, Operand.reading_eq_some]
  exact known

/-! ## Instructions that get to the check -/

/-- The check of an unsigned value forgets the flags. -/
theorem checked_flagged (machine : Machine) (width : Width) (value : Word) (carry overflow : Bool) :
    (machine.flagged carry overflow).checked width value = machine.checked width value :=
  Machine.flagged_flagged machine carry overflow _ false

theorem binaryArithmetic_flagged (compute : Word → Word → Word → Word) (width : Width) (carry overflow : Bool)
    (known : operand1.getVal machine = .ok value machine) (known' : operand2.getVal machine = .ok other machine)
    (same : compute value other (if carry then 1 else 0) = compute value other (if machine.carry then 1 else 0)) :
    binaryArithmetic compute { width := width.bcd, operands := [operand1, operand2] } (machine.flagged carry overflow) =
      binaryArithmetic compute { width := width.bcd, operands := [operand1, operand2] } machine := by
  have flag : getFlag (machine.flagged carry overflow).registers.FlagRegister .carry = carry :=
    machine.carry_flagged carry overflow
  rw [binaryArithmetic_apply compute width known known', binaryArithmetic_apply compute width
    (getVal_flagged known carry overflow) (getVal_flagged known' carry overflow), flag, same]
  simp only [checked_flagged]
  rfl

theorem unaryArithmetic_flagged (compute : Word → Word) (width : Width) (carry overflow : Bool)
    (known : operand1.getVal machine = .ok value machine) :
    unaryArithmetic compute { width := width.bcd, operands := [operand1] } (machine.flagged carry overflow) =
      unaryArithmetic compute { width := width.bcd, operands := [operand1] } machine := by
  rw [unaryArithmetic_apply compute width known, unaryArithmetic_apply compute width (getVal_flagged known carry overflow),
    checked_flagged]

/-- An instruction that assigns all arithmetic flags from values that the flags do not show in ends in
the same state from any flags. -/
theorem dispatch_flagged (host : Host) (assigns : operation ≠ .neg ∧ operation ≠ .cmp)
    (settles : operation.Settles width operand1 operand2 machine) (carry : Bool)
    (used : operation.usesCarry = true → carry = machine.carry) :
    dispatch host (operation.instruction width operand1 operand2) (machine.flagged carry false) =
      dispatch host (operation.instruction width operand1 operand2) machine := by
  obtain ⟨value, reads, rest⟩ := settles
  have known := Operand.reading_eq_some.mp reads
  have known' := getVal_flagged known carry false
  cases operation with
  | add | sub =>
    obtain ⟨other, reads'⟩ := rest
    simp only [ArithmeticOperation.instruction, ArithmeticOperation.mnemonic]
    rw [dispatch_sized rfl]
    exact binaryArithmetic_flagged _ width carry false known (Operand.reading_eq_some.mp reads') rfl
  | adc | sbb =>
    obtain ⟨other, reads'⟩ := rest
    simp only [ArithmeticOperation.instruction, ArithmeticOperation.mnemonic]
    rw [dispatch_sized rfl]
    apply binaryArithmetic_flagged _ width carry false known (Operand.reading_eq_some.mp reads')
    rw [used rfl]
  | inc | dec =>
    simp only [ArithmeticOperation.instruction, ArithmeticOperation.mnemonic]
    rw [dispatch_sized rfl]
    exact unaryArithmetic_flagged _ width carry false known
  | mul =>
    simp only [ArithmeticOperation.instruction, ArithmeticOperation.mnemonic]
    rw [dispatch_sized rfl]
    have loaded : (machine.flagged carry false).registers.load (registerOf width 0) =
        machine.registers.load (registerOf width 0) := rfl
    refine (mul_apply width known').trans (Eq.trans ?_ (mul_apply width known).symm)
    simp only [loaded, checked_flagged]
  | imul =>
    refine (dispatch_imul host width known').trans (Eq.trans ?_ (dispatch_imul host width known).symm)
    rw [Machine.flagged_flagged]
    rfl
  | div =>
    refine (dispatch_div host known' rest).trans (Eq.trans ?_ (dispatch_div host known rest).symm)
    rw [Machine.flagged_flagged]
    rfl
  | idiv =>
    refine (dispatch_idiv host width known' rest.1 rest.2).trans
      (Eq.trans ?_ (dispatch_idiv host width known rest.1 rest.2).symm)
    rw [Machine.flagged_flagged]
    rfl
  | neg => exact absurd rfl assigns.1
  | cmp => exact absurd rfl assigns.2

/-- A place that can be read can be stored to. -/
theorem Operand.setVal_of_reading {operand : Operand} (reads : operand.reading machine = some value)
    (place : ∀ number code, operand ≠ .constant number code) (stored : Word) :
    ∃ after, operand.setVal stored machine = .ok () after := by
  cases operand with
  | register widthBCD index =>
    rw [Operand.reading_codes] at reads
    obtain ⟨register, known, -⟩ := Option.map_eq_some_iff.mp reads
    refine ⟨{ machine with registers := machine.registers.store stored register }, ?_⟩
    simp only [Operand.setVal, selectRegister, known, bind_apply, pure_apply, modifyRegisters, modify_apply]
  | constant number code => exact absurd rfl (place number code)
  | memory address widthBCD =>
    cases known : Width.ofBcd widthBCD with
    | none =>
      rw [Operand.reading_memory_unknown known] at reads
      cases reads
    | some width =>
      obtain rfl := Width.bcd_of_ofBcd known
      by_cases inside : machine.Holds address width
      · exact ⟨_, setVal_memory stored inside⟩
      · rw [Operand.reading_memory_outside inside] at reads
        cases reads

/-- `neg` clears the flags after the store. -/
theorem dispatch_neg (host : Host) (settles : ArithmeticOperation.neg.Settles width operand1 operand2 machine) :
    ∃ after, dispatch host (ArithmeticOperation.neg.instruction width operand1 operand2) machine = .ok () after ∧
      after.flags = arithmeticFlags machine.flags false false := by
  obtain ⟨value, reads, place⟩ := settles
  obtain ⟨stored, stores⟩ := Operand.setVal_of_reading reads place (-value)
  have kept : stored.flags = machine.flags := keeps_ok (keeps_flags_setVal (-value) operand1) stores
  refine ⟨stored.flagged false false, ?_, congrArg (fun flags => arithmeticFlags flags false false) kept⟩
  simp only [ArithmeticOperation.instruction, ArithmeticOperation.mnemonic]
  rw [dispatch_sized rfl]
  simp only [neg, Arguments.getVal, Arguments.setVal, Arguments.operand, List.getElem?_cons_zero, pure_bind, bind_apply,
    Operand.reading_eq_some.mp reads, stores]
  rfl

/-- `cmp` keeps the carry and the overflow. -/
theorem dispatch_cmp (host : Host) (width : Width) (known : operand1.getVal machine = .ok value machine)
    (known' : operand2.getVal machine = .ok other machine) :
    ∃ after, dispatch host (ArithmeticOperation.cmp.instruction width operand1 operand2) machine = .ok () after ∧
      after.flags = setFlag (setFlag (setFlag machine.flags .largerThan (other < value)) .lessThan (value < other))
        .equal (value == other) := by
  simp only [ArithmeticOperation.instruction, ArithmeticOperation.mnemonic]
  rw [dispatch_sized rfl]
  simp only [cmp, Arguments.getVal, Arguments.operand, List.getElem?_cons_zero, List.getElem?_cons_succ, pure_bind,
    bind_apply, known, known', getRegisters, get_apply, pure_apply, storeFlags, modifyRegisters, modify_apply]
  exact ⟨_, rfl, rfl⟩

/-! ## Instructions that do not get to the check -/

/-- The first operand cannot be read. -/
theorem dispatch_unreadable (host : Host) {fault : Fault} (failed : operand1.getVal machine = .error fault machine) :
    dispatch host (operation.instruction width operand1 operand2) machine = .error fault machine := by
  cases operation <;> simp only [ArithmeticOperation.instruction, ArithmeticOperation.mnemonic] <;>
    rw [dispatch_sized rfl] <;>
    simp only [add, adc, sub, sbb, mul, imul, div, idiv, neg, inc, dec, cmp, binaryArithmetic, unaryArithmetic,
      operationWidth, Width.ofBcd_bcd, Arguments.getVal, Arguments.operand, List.getElem?_cons_zero, loadRegister,
      getRegisters, get_apply, pure_apply, loadFilled_apply, pure_bind, bind_apply, failed]

/-- The second operand cannot be read. -/
theorem dispatch_unreadable_second (host : Host) {fault : Fault} (known : operand1.getVal machine = .ok value machine)
    (failed : operand2.getVal machine = .error fault machine)
    (binary : operation = .add ∨ operation = .adc ∨ operation = .sub ∨ operation = .sbb ∨ operation = .cmp) :
    dispatch host (operation.instruction width operand1 operand2) machine = .error fault machine := by
  rcases binary with rfl | rfl | rfl | rfl | rfl <;>
    simp only [ArithmeticOperation.instruction, ArithmeticOperation.mnemonic] <;> rw [dispatch_sized rfl] <;>
    simp only [add, adc, sub, sbb, cmp, binaryArithmetic, Arguments.getVal, Arguments.operand, List.getElem?_cons_zero,
      List.getElem?_cons_succ, pure_bind, bind_apply, known, failed]

theorem arithmetic_masked (flags : Word) :
    arithmeticView (setFlag flags .interruptionMask true) = arithmeticView flags := by
  simp [arithmeticView, getFlag_setFlag]

theorem doInterruption_arithmetic (host : Host) {code : Word} (other : code ≠ 0x14) (machine : Machine) :
    (final (doInterruption host code machine)).arithmetic = machine.arithmetic :=
  preserves_otherInterruption (Q := fun flags => arithmeticView flags = machine.arithmetic)
    (fun flags same => (arithmetic_masked flags).trans same) host other machine rfl

/-- An instruction that does not get to the check leaves the arithmetic flags as they were. -/
theorem dispatch_arithmetic (host : Host) (unsettled : ¬ operation.Settles width operand1 operand2 machine) :
    (final (dispatch host (operation.instruction width operand1 operand2) machine)).arithmetic = machine.arithmetic := by
  cases reads : operand1.reading machine with
  | none =>
    obtain ⟨fault, failed⟩ := Operand.reading_eq_none.mp reads
    rw [dispatch_unreadable host failed]
    rfl
  | some value =>
    have known := Operand.reading_eq_some.mp reads
    have second (binary : operation = .add ∨ operation = .adc ∨ operation = .sub ∨ operation = .sbb ∨ operation = .cmp)
        (missing : ¬ ∃ other, operand2.reading machine = some other) :
        (final (dispatch host (operation.instruction width operand1 operand2) machine)).arithmetic =
          machine.arithmetic := by
      have none : operand2.reading machine = none :=
        Option.eq_none_iff_forall_ne_some.mpr fun other found => missing ⟨other, found⟩
      obtain ⟨fault, failed⟩ := Operand.reading_eq_none.mp none
      rw [dispatch_unreadable_second host known failed binary]
      rfl
    have rest := fun met => unsettled ⟨value, reads, met⟩
    cases operation with
    | add | adc | sub | sbb | cmp => exact second (by simp) rest
    | mul | imul | inc | dec => exact absurd trivial rest
    | div =>
      obtain rfl : value = 0 := not_not.mp rest
      refine (congrArg (fun result => (final result).arithmetic) (dispatch_div_zero host known)).trans ?_
      exact doInterruption_arithmetic host (by decide) machine
    | idiv =>
      by_cases zero : value = 0
      · subst zero
        refine (congrArg (fun result => (final result).arithmetic) (dispatch_idiv_zero host known)).trans ?_
        exact doInterruption_arithmetic host (by decide) machine
      · obtain ⟨least, rfl⟩ := not_not.mp fun defined => rest ⟨zero, defined⟩
        exact congrArg (fun result => (final result).arithmetic) (dispatch_idiv_trap host known least)
    | neg =>
      have constant : ∃ number code, operand1 = .constant number code := by
        by_contra place
        push Not at place
        exact rest place
      obtain ⟨number, code, rfl⟩ := constant
      rfl

/-! ## Two runs -/

/-- The state after an instruction, with the handlers of `execute` around it. -/
def Machine.ran (machine : Machine) (host : Host) (instruction : ActiveInstruction) : Machine :=
  final (guarded host (dispatch host instruction) machine)

/-- The handlers change none of the arithmetic flags. -/
theorem ran_arithmetic (host : Host) (instruction : ActiveInstruction) (machine : Machine) :
    (machine.ran host instruction).arithmetic = (final (dispatch host instruction machine)).arithmetic :=
  guarded_flags (Q := fun flags => arithmeticView flags = (final (dispatch host instruction machine)).arithmetic)
    (fun flags same => (arithmetic_masked flags).trans same) rfl

/-- The flags tell the unsigned order of two values and nothing else. -/
def Compared (value other : Word) (machine : Machine) : Prop :=
  machine.carry = false ∧ getFlag machine.flags .overflow = false ∧
    getFlag machine.flags .largerThan = decide (other < value) ∧ getFlag machine.flags .lessThan = decide (value < other) ∧
    getFlag machine.flags .equal = decide (value = other)

/-- Exactly one of the comparison flags is set. -/
theorem Compared.one {machine : Machine} (compared : Compared value other machine) :
    (getFlag machine.flags .largerThan).toNat + (getFlag machine.flags .lessThan).toNat +
      (getFlag machine.flags .equal).toNat = 1 := by
  obtain ⟨-, -, larger, less, equal⟩ := compared
  rw [larger, less, equal]
  simp only [BitVec.lt_def, ← BitVec.toNat_inj]
  rcases Nat.lt_trichotomy value.toNat other.toNat with below | same | above
  · simp [below, below.ne, below.le]
  · simp [same]
  · simp [above, above.ne', above.le]

/-- The arithmetic flags are the same after both runs, and after `cmp` they tell the order. -/
def FlagsCarryNoHistory (host : Host) (operation : ArithmeticOperation) (width : Width) (operand1 operand2 : Operand)
    (first second : Machine) : Prop :=
  let instruction := operation.instruction width operand1 operand2
  (first.ran host instruction).arithmetic = (second.ran host instruction).arithmetic ∧
    (operation = .cmp → ∀ value other, operand1.reading first = some value → operand2.reading first = some other →
      Compared value other (first.ran host instruction) ∧ Compared value other (second.ran host instruction))

/-- No carry and no overflow are left from before. -/
def Machine.Clean (machine : Machine) : Prop := machine.carry = false ∧ getFlag machine.flags .overflow = false

theorem cmp_arithmetic (host : Host) (width : Width) (known : operand1.getVal machine = .ok value machine)
    (known' : operand2.getVal machine = .ok other machine) :
    (machine.ran host (ArithmeticOperation.cmp.instruction width operand1 operand2)).arithmetic =
      [machine.carry, getFlag machine.flags .overflow, decide (value = other), decide (other < value),
        decide (value < other)] := by
  obtain ⟨after, runs, flags⟩ := dispatch_cmp host width known known'
  rw [ran_arithmetic, runs, final_ok, Machine.arithmetic, flags]
  simp [arithmeticView, getFlag_setFlag, Machine.carry, Machine.flags, beq_eq_decide]

theorem compared_iff (value other : Word) (machine : Machine) :
    Compared value other machine ↔ machine.arithmetic =
      [false, false, decide (value = other), decide (other < value), decide (value < other)] := by
  simp only [Compared, Machine.arithmetic, arithmeticView, Machine.carry, Machine.flags, List.cons.injEq, and_true]
  tauto

section TwoRuns

variable {first second : Machine}

theorem reading_agree (agree : first.flagged false false = second.flagged false false) (operand : Operand) :
    operand.reading first = operand.reading second := by
  rw [← Machine.reading_flagged operand first false false, agree, Machine.reading_flagged]

theorem settles_agree (agree : first.flagged false false = second.flagged false false)
    (settles : operation.Settles width operand1 operand2 first) : operation.Settles width operand1 operand2 second := by
  have filled : filledBase first.registers width = filledBase second.registers width := by
    change filledBase (first.flagged false false).registers width = filledBase (second.flagged false false).registers width
    rw [agree]
  rw [ArithmeticOperation.Settles, ← filled, ← reading_agree agree, ← reading_agree agree]
  exact settles

/-- States that agree but for the arithmetic flags agree whole once the flags are assigned. -/
theorem flagged_agree (agree : first.flagged false false = second.flagged false false) (carry : Bool) :
    first.flagged carry false = second.flagged carry false := by
  rw [← Machine.flagged_flagged first false false, agree, Machine.flagged_flagged]

/-- Two instructions that get to the check assign the same flags, `cmp` apart. -/
theorem settled_agree (host : Host) (agree : first.flagged false false = second.flagged false false)
    (carried : operation.usesCarry = true → first.carry = second.carry)
    (settles : operation.Settles width operand1 operand2 first) (other : operation ≠ .cmp) :
    (final (dispatch host (operation.instruction width operand1 operand2) first)).arithmetic =
      (final (dispatch host (operation.instruction width operand1 operand2) second)).arithmetic := by
  have settles' := settles_agree agree settles
  by_cases negates : operation = .neg
  · subst negates
    obtain ⟨after, runs, flags⟩ := dispatch_neg host settles
    obtain ⟨after', runs', flags'⟩ := dispatch_neg host settles'
    have cleared : arithmeticFlags first.flags false false = arithmeticFlags second.flags false false :=
      congrArg Machine.flags agree
    rw [runs, runs', final_ok, final_ok, Machine.arithmetic, flags, cleared, ← flags']
    rfl
  · rw [← dispatch_flagged host ⟨negates, other⟩ settles first.carry fun _ => rfl,
      ← dispatch_flagged host ⟨negates, other⟩ settles' first.carry carried, flagged_agree agree]

/-- The arithmetic flags carry no history, except through the carry and the overflow that `cmp` keeps, and
through instructions that do not get to their check. -/
theorem flags_history_iff (host : Host) (operation : ArithmeticOperation) (width : Width) (operand1 operand2 : Operand)
    (first second : Machine) (agree : first.flagged false false = second.flagged false false)
    (carried : operation.usesCarry = true → first.carry = second.carry) :
    FlagsCarryNoHistory host operation width operand1 operand2 first second ↔
      (operation.Settles width operand1 operand2 first → operation = .cmp → first.Clean ∧ second.Clean) ∧
      (¬ operation.Settles width operand1 operand2 first → first.arithmetic = second.arithmetic) := by
  by_cases settles : operation.Settles width operand1 operand2 first
  · by_cases compares : operation = .cmp
    · subst compares
      obtain ⟨value, reads, other, reads'⟩ := settles
      have known := Operand.reading_eq_some.mp reads
      have known' := Operand.reading_eq_some.mp reads'
      have flags := cmp_arithmetic host width known known'
      have flags' := cmp_arithmetic host width
        (Operand.reading_eq_some.mp ((reading_agree agree operand1).symm.trans reads))
        (Operand.reading_eq_some.mp ((reading_agree agree operand2).symm.trans reads'))
      constructor
      · rintro ⟨-, compared⟩
        obtain ⟨order, order'⟩ := compared rfl value other reads reads'
        rw [compared_iff, flags] at order
        rw [compared_iff, flags'] at order'
        refine ⟨fun _ _ => ⟨?_, ?_⟩, fun unsettled => absurd ⟨value, reads, other, reads'⟩ unsettled⟩
        · simpa [Machine.Clean] using order
        · simpa [Machine.Clean] using order'
      · rintro ⟨clean, -⟩
        obtain ⟨⟨carry, overflow⟩, carry', overflow'⟩ := clean ⟨value, reads, other, reads'⟩ rfl
        refine ⟨?_, fun _ found found' is is' => ?_⟩
        · rw [flags, flags', carry, overflow, carry', overflow']
        · rw [reads] at is
          rw [reads'] at is'
          obtain rfl := Option.some.inj is
          obtain rfl := Option.some.inj is'
          rw [compared_iff, compared_iff, flags, flags', carry, overflow, carry', overflow']
          exact ⟨rfl, rfl⟩
    · refine ⟨fun _ => ⟨fun _ same => absurd same compares, fun unsettled => absurd settles unsettled⟩, fun _ => ⟨?_, ?_⟩⟩
      · rw [ran_arithmetic, ran_arithmetic]
        exact settled_agree host agree carried settles compares
      · exact fun same => absurd same compares
  · have settles' : ¬ operation.Settles width operand1 operand2 second :=
      fun found => settles (settles_agree agree.symm found)
    have kept : FlagsCarryNoHistory host operation width operand1 operand2 first second ↔
        first.arithmetic = second.arithmetic := by
      rw [FlagsCarryNoHistory, ran_arithmetic, ran_arithmetic, dispatch_arithmetic host settles,
        dispatch_arithmetic host settles']
      refine ⟨fun both => both.1, fun same => ⟨same, fun compares value other reads reads' => ?_⟩⟩
      subst compares
      exact absurd ⟨value, reads, other, reads'⟩ settles
    rw [kept]
    exact ⟨fun same => ⟨fun found => absurd found settles, fun _ => same⟩, fun both => both.2 settles⟩

end TwoRuns

theorem saturated_reading (carry overflow : Bool) :
    (Operand.ofRegister (registerOf .w8 0)).reading (Machine.saturated.flagged carry overflow) = some 255 := by
  rw [Machine.reading_flagged, Operand.reading_register]
  congr 1

/-- `ADD .8bit <%R0>, <$8(1)>` from two states with different flags. -/
theorem flags_history_add :
    FlagsCarryNoHistory Host.ample .add .w8 (.ofRegister (registerOf .w8 0)) (.constant 1 Width.w8.bcd)
      (Machine.saturated.flagged true true) (Machine.saturated.flagged false true) := by
  have settles : ArithmeticOperation.add.Settles .w8 (.ofRegister (registerOf .w8 0)) (.constant 1 Width.w8.bcd)
      (Machine.saturated.flagged true true) := ⟨255, saturated_reading true true, 1, rfl⟩
  have agree : (Machine.saturated.flagged true true).flagged false false =
      (Machine.saturated.flagged false true).flagged false false := by
    rw [Machine.flagged_flagged, Machine.flagged_flagged]
  apply (flags_history_iff Host.ample .add .w8 (.ofRegister (registerOf .w8 0)) (.constant 1 Width.w8.bcd)
    (Machine.saturated.flagged true true) (Machine.saturated.flagged false true) agree nofun).mpr
  exact ⟨fun _ => nofun, fun unsettled => absurd settles unsettled⟩

/-- After `CMP .8bit <%R0>, <$8(255)>` the carry is the one from before. -/
theorem not_flags_history :
    ¬ ∀ first second : Machine, first.flagged false false = second.flagged false false →
      FlagsCarryNoHistory Host.ample .cmp .w8 (.ofRegister (registerOf .w8 0)) (.constant 255 Width.w8.bcd) first
        second := by
  intro every
  have agree : (Machine.saturated.flagged true false).flagged false false =
      (Machine.saturated.flagged false false).flagged false false := by
    rw [Machine.flagged_flagged, Machine.flagged_flagged]
  obtain ⟨same, -⟩ := every _ _ agree
  rw [cmp_arithmetic Host.ample .w8 (Operand.reading_eq_some.mp (saturated_reading true false))
      (show (Operand.constant 255 Width.w8.bcd).getVal _ = .ok 255 _ from rfl),
    cmp_arithmetic Host.ample .w8 (Operand.reading_eq_some.mp (saturated_reading false false))
      (show (Operand.constant 255 Width.w8.bcd).getVal _ = .ok 255 _ from rfl),
    Machine.carry_flagged, Machine.carry_flagged] at same
  injection same with carry
  cases carry

end Sysdarft
