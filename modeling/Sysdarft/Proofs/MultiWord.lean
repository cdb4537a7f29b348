import Mathlib.Data.Nat.Digits.Defs
import Sysdarft.Proofs.Arithmetic
import Sysdarft.Proofs.DecoderFormat
import Sysdarft.Proofs.OperandFrame

/-! # Multi-word arithmetic

`add` on the lowest limbs and `adc` on the others compute the sum of two long numbers, `sub` and `sbb`
the difference. A run executes one instruction for each limb and, between them, instructions that leave
the carry and the limbs as they are. What carries the induction is that the limbs of the result, with
the carry as one more limb, are the exact result so far.
-/

namespace Sysdarft

open Effects

/-- One limb of both numbers; the first number receives the result. -/
structure Limb where
  target : Operand
  source : Operand

/-- Storing the earlier limb leaves the later one alone. -/
def Limb.Apart (width : Width) (earlier later : Limb) : Prop :=
  earlier.target.Apart width later.target ∧ earlier.target.Apart width later.source

/-- Both sides of a limb can be accessed. -/
def Limb.Placed (limb : Limb) (machine : Machine) (width : Width) : Prop :=
  limb.target.Writable machine width ∧ limb.source.Readable machine width

inductive LongOperation where
  | addition | subtraction
deriving DecidableEq, Repr

namespace LongOperation

/-- The instruction for the lowest limb. -/
def lowest : LongOperation → UnsignedOperation
  | addition => .add
  | subtraction => .sub

/-- The instruction for the other limbs. -/
def higher : LongOperation → UnsignedOperation
  | addition => .adc
  | subtraction => .sbb

def exact (operation : LongOperation) (first second : ℕ) : ℤ :=
  match operation with
  | addition => first + second
  | subtraction => (first : ℤ) - second

/-- A carry is added, a borrow is taken off. -/
def sign : LongOperation → ℤ
  | addition => 1
  | subtraction => -1

/-- The instructions for the limbs, from the lowest to the highest. -/
def program (operation : LongOperation) : List Limb → List (UnsignedOperation × Limb)
  | [] => []
  | limb :: limbs => (operation.lowest, limb) :: limbs.map fun limb => (operation.higher, limb)

end LongOperation

/-! ## Runs -/

/-- The operands of all limbs. -/
def limbOperands (limbs : List Limb) : List Operand := limbs.flatMap fun limb => [limb.target, limb.source]

/-- An instruction between two limbs: it leaves the carry and the limbs as they are. -/
structure Neutral (host : Host) (limbs : List Operand) (before after : Machine) : Prop where
  executed : execute host before = .ok () after
  carry : after.carry = before.carry
  limbs : ∀ operand ∈ limbs, operand.reading after = operand.reading before

/-- Any number of instructions between two limbs. -/
def Between (host : Host) (limbs : List Operand) : Machine → Machine → Prop :=
  Relation.ReflTransGen (Neutral host limbs)

/-- The instructions of a program are executed in their order, with others between them. -/
inductive LimbRun (host : Host) (width : Width) (limbs : List Operand) :
    List (UnsignedOperation × Limb) → Machine → Machine → Prop where
  | done {start finish : Machine} (between : Between host limbs start finish) : LimbRun host width limbs [] start finish
  | limb {operation : UnsignedOperation} {limb : Limb} {later : List (UnsignedOperation × Limb)}
      {start before fetched after finish : Machine} (between : Between host limbs start before)
      (reached : fetch before = .ok (operation.instruction width limb.target limb.source) fetched)
      (executed : execute host before = .ok () after) (rest : LimbRun host width limbs later after finish) :
      LimbRun host width limbs ((operation, limb) :: later) start finish

/-- The number whose limbs are given, the lowest first. -/
def number (width : Width) (machine : Machine) (limbs : List Operand) : ℕ :=
  Nat.ofDigits (2 ^ width.bits) (limbs.map fun limb => ((limb.reading machine).getD 0).toNat)

variable {host : Host} {width : Width} {limbs : List Limb} {tracked : List Operand} {operation : LongOperation}

theorem number_cons (width : Width) (machine : Machine) (limb : Operand) (rest : List Operand) :
    number width machine (limb :: rest) =
      ((limb.reading machine).getD 0).toNat + 2 ^ width.bits * number width machine rest := by
  rw [number, List.map_cons, Nat.ofDigits_cons]
  rfl

theorem number_congr {first second : Machine} {operands : List Operand}
    (same : ∀ operand ∈ operands, operand.reading second = operand.reading first) :
    number width second operands = number width first operands := by
  rw [number, number]
  congr 1
  apply List.map_congr_left
  intro operand member
  rw [same operand member]

theorem number_lt {machine : Machine} {operands : List Operand}
    (readable : ∀ operand ∈ operands, operand.Readable machine width) :
    number width machine operands < (2 ^ width.bits) ^ operands.length := by
  have length : (operands.map fun limb => ((limb.reading machine).getD 0).toNat).length = operands.length :=
    List.length_map ..
  rw [number, ← length]
  apply Nat.ofDigits_lt_base_pow_length (Nat.one_lt_two_pow (by cases width <;> decide))
  intro digit member
  obtain ⟨operand, inside, rfl⟩ := List.mem_map.mp member
  obtain ⟨value, reads, small⟩ := (readable operand inside).getVal
  rw [Operand.reading_eq_some.mpr reads]
  exact small

/-- Instructions in between change neither the carry nor the limbs. -/
theorem Between.keeps {first second : Machine} (between : Between host tracked first second) :
    second.carry = first.carry ∧ ∀ operand ∈ tracked, operand.reading second = operand.reading first := by
  induction between with
  | refl => exact ⟨rfl, fun _ _ => rfl⟩
  | tail earlier step ih =>
    refine ⟨step.carry.trans ih.1, fun operand member => ?_⟩
    exact (step.limbs operand member).trans (ih.2 operand member)

/-! ## One limb -/

theorem limb_exact {base sign result stored : ℤ} {carry : Bool} (signed : sign = 1 ∧ 0 ≤ result ∨ sign = -1 ∧ result < base)
    (low : -base ≤ result) (high : result < 2 * base) (value : stored = result % base)
    (out : carry = true ↔ ¬ (0 ≤ result ∧ result < base)) : stored + sign * base * carry.toNat = result := by
  by_cases inside : 0 ≤ result ∧ result < base
  · obtain rfl : carry = false := by
      by_contra raised
      exact out.mp (Bool.eq_true_of_not_eq_false raised) inside
    rw [value, Int.emod_eq_of_lt inside.1 inside.2]
    simp
  · rw [out.mpr inside, value]
    rcases signed with ⟨rfl, nonneg⟩ | ⟨rfl, small⟩
    · have remainder : result % base = result - base := by
        rw [← Int.sub_emod_right]
        exact Int.emod_eq_of_lt (by omega) (by omega)
      rw [remainder]
      simp
    · have remainder : result % base = result + base := by
        rw [← Int.add_emod_right]
        exact Int.emod_eq_of_lt (by omega) (by omega)
      rw [remainder]
      simp

theorem LongOperation.higher_exact (operation : LongOperation) (first second : ℕ) (carry : Bool) :
    operation.higher.exact first second carry = first + operation.sign * (second + carry.toNat) := by
  cases operation <;> simp only [higher, UnsignedOperation.exact, sign] <;> ring

/-- The lowest limb is worked on as if the carry were clear. -/
theorem LongOperation.lowest_exact (operation : LongOperation) (first second : ℕ) (carry : Bool) :
    operation.lowest.exact first second carry = operation.higher.exact first second false := by
  cases operation <;> simp [lowest, higher, UnsignedOperation.exact]

theorem Operand.reading_checked (operand : Operand) (machine : Machine) (width : Width) (value : Word) :
    operand.reading (machine.checked width value) = operand.reading machine := by
  have same : (machine.checked width value).readable = machine.readable := rfl
  exact operand.reading_congr same

/-- What one instruction of the program does to its limb, and to operands apart from it. -/
theorem limb_step {machine fetched after : Machine} {limb : Limb} {instruction : UnsignedOperation}
    (target : instruction.Target width limb.target) (narrow : width ≠ .w64) (placed : limb.Placed machine width)
    (reached : fetch machine = .ok (instruction.instruction width limb.target limb.source) fetched)
    (executed : execute host machine = .ok () after) :
    ∃ first second stored, limb.target.reading machine = some first ∧ limb.source.reading machine = some second ∧
      limb.target.reading after = some stored ∧ first.toNat < 2 ^ width.bits ∧ second.toNat < 2 ^ width.bits ∧
      (stored.toNat : ℤ) = instruction.exact first.toNat second.toNat machine.carry % 2 ^ width.bits ∧
      (after.carry = true ↔ ¬ (0 ≤ instruction.exact first.toNat second.toNat machine.carry ∧
        instruction.exact first.toNat second.toNat machine.carry < 2 ^ width.bits)) ∧
      ∀ operand : Operand, operand.Readable machine width → limb.target.Apart width operand →
        operand.reading after = operand.reading machine := by
  have core := fetch_core reached
  have shown := Operand.reading_congr (Machine.readable_of_core core)
  have carried : machine.carry = fetched.carry := by
    rw [Machine.carry, Machine.carry, Machine.flags_of_core core]
  have writable : limb.target.Writable fetched width := placed.1.of_reading (shown limb.target)
  have readable : limb.source.Readable fetched width := placed.2.of_reading (shown limb.source)
  obtain ⟨first, firstValue, firstSmall⟩ := (Operand.Readable.place writable).getVal
  obtain ⟨second, secondValue, secondSmall⟩ := readable.getVal
  obtain ⟨finish, stored, runs, reads, value, out⟩ :=
    dispatch_unsigned_result host target writable firstValue secondValue
  obtain rfl : finish = after := by
    rw [execute_returns reached runs] at executed
    injection executed
  obtain ⟨low, high⟩ := exact_bounds instruction fetched.carry narrow firstSmall secondSmall
  have range := out.trans (trimmed_ne_iff narrow low high)
  refine ⟨first, second, stored, ?_, ?_, Operand.reading_eq_some.mpr reads, firstSmall, secondSmall, ?_, ?_, ?_⟩
  · rw [← shown, Operand.reading_eq_some]
    exact firstValue
  · rw [← shown, Operand.reading_eq_some]
    exact secondValue
  · rw [carried]
    exact value
  · rw [carried]
    rw [not_and_or, not_le, not_lt]
    exact range
  · intro operand present apart
    rw [dispatch_unsigned host target firstValue secondValue] at runs
    have present' : operand.Readable fetched width := present.of_reading (shown operand)
    rw [Operand.reading_setVal (writable.checked _) (present'.of_reading (operand.reading_checked ..)) apart runs,
      Operand.reading_checked, shown]

/-- The instruction of a limb with the carry it works with. -/
inductive LongOperation.Consumes (operation : LongOperation) (carry : Bool) : UnsignedOperation → Bool → Prop where
  | lowest : Consumes operation carry operation.lowest false
  | higher : Consumes operation carry operation.higher carry

/-- The limb of the result, with the carry out as the next limb, is the exact result of the limbs and
the carry in. -/
theorem limb_value {machine fetched after : Machine} {limb : Limb} {instruction : UnsignedOperation} {carry : Bool}
    (consumes : operation.Consumes machine.carry instruction carry) (narrow : width ≠ .w64)
    (placed : limb.Placed machine width)
    (reached : fetch machine = .ok (instruction.instruction width limb.target limb.source) fetched)
    (executed : execute host machine = .ok () after) :
    ∃ first second stored : Word, limb.target.reading machine = some first ∧ limb.source.reading machine = some second ∧
      limb.target.reading after = some stored ∧
      (stored.toNat : ℤ) + operation.sign * 2 ^ width.bits * after.carry.toNat =
        first.toNat + operation.sign * (second.toNat + carry.toNat) ∧
      ∀ operand : Operand, operand.Readable machine width → limb.target.Apart width operand →
        operand.reading after = operand.reading machine := by
  have target : instruction.Target width limb.target := by
    intro product
    subst product
    cases operation <;> cases consumes
  obtain ⟨first, second, stored, firstValue, secondValue, storedValue, firstSmall, secondSmall, value, out, frame⟩ :=
    limb_step target narrow placed reached executed
  have result : instruction.exact first.toNat second.toNat machine.carry =
      first.toNat + operation.sign * (second.toNat + carry.toNat) := by
    cases consumes with
    | lowest => rw [operation.lowest_exact, operation.higher_exact]
    | higher => exact operation.higher_exact ..
  rw [result] at value out
  refine ⟨first, second, stored, firstValue, secondValue, storedValue, ?_, frame⟩
  have bit := Bool.toNat_le carry
  zify at firstSmall secondSmall bit
  have nonneg : (0 : ℤ) ≤ carry.toNat := Int.natCast_nonneg _
  apply limb_exact _ _ _ value out
  · cases operation with
    | addition =>
      left
      rw [LongOperation.sign]
      omega
    | subtraction =>
      right
      rw [LongOperation.sign]
      omega
  · cases operation <;> rw [LongOperation.sign] <;> omega
  · cases operation <;> rw [LongOperation.sign] <;> omega

/-! ## All limbs -/

theorem Operand.Apart.symm {first second : Operand} (apart : first.Apart width second) : second.Apart width first := by
  cases first with
  | register widthBCD index =>
    cases second with
    | register widthBCD' index' => exact Ne.symm apart
    | constant | memory => trivial
  | constant value width =>
    cases second <;> trivial
  | memory address widthBCD =>
    cases second with
    | memory address' widthBCD' => exact Or.symm apart
    | constant | register => trivial

theorem mem_limbOperands {limb : Limb} (member : limb ∈ limbs) :
    limb.target ∈ limbOperands limbs ∧ limb.source ∈ limbOperands limbs := by
  constructor
  · exact List.mem_flatMap.mpr ⟨limb, member, by simp⟩
  · exact List.mem_flatMap.mpr ⟨limb, member, by simp⟩

theorem Limb.Placed.of_reading {limb : Limb} {first second : Machine} (placed : limb.Placed first width)
    (target : limb.target.reading second = limb.target.reading first)
    (source : limb.source.reading second = limb.source.reading first) : limb.Placed second width :=
  ⟨placed.1.of_reading target, placed.2.of_reading source⟩

/-- The first instruction of a run, with those before it. -/
theorem LimbRun.first {start finish : Machine} {limb : Limb} {instruction : UnsignedOperation} {carry : Bool}
    {later : List (UnsignedOperation × Limb)} (run : LimbRun host width tracked ((instruction, limb) :: later) start finish)
    (consumes : operation.Consumes start.carry instruction carry) (narrow : width ≠ .w64)
    (placed : limb.Placed start width) (inside : limb.target ∈ tracked ∧ limb.source ∈ tracked) :
    ∃ (after : Machine) (first second stored : Word), LimbRun host width tracked later after finish ∧
      limb.target.reading start = some first ∧ limb.source.reading start = some second ∧
      limb.target.reading after = some stored ∧
      (stored.toNat : ℤ) + operation.sign * 2 ^ width.bits * after.carry.toNat =
        first.toNat + operation.sign * (second.toNat + carry.toNat) ∧
      ∀ operand ∈ tracked, operand.Readable start width → limb.target.Apart width operand →
        operand.reading after = operand.reading start := by
  cases run with
  | @limb _ _ _ _ before fetched after _ between reached executed rest =>
    obtain ⟨carried, kept⟩ := between.keeps
    have target := kept _ inside.1
    have source := kept _ inside.2
    rw [← carried] at consumes
    obtain ⟨first, second, stored, firstValue, secondValue, storedValue, value, frame⟩ :=
      limb_value consumes narrow (placed.of_reading target source) reached executed
    refine ⟨after, first, second, stored, rest, target ▸ firstValue, source ▸ secondValue, storedValue, value, ?_⟩
    intro operand member readable apart
    exact (frame operand (readable.of_reading (kept operand member)) apart).trans (kept operand member)

/-- The limbs can be accessed, and storing an earlier one leaves the later ones alone. -/
structure Prepared (width : Width) (tracked : List Operand) (limbs : List Limb) (machine : Machine) : Prop where
  placed : ∀ limb ∈ limbs, limb.Placed machine width
  tracked : ∀ limb ∈ limbs, limb.target ∈ tracked ∧ limb.source ∈ tracked
  apart : limbs.Pairwise (Limb.Apart width)

/-- The limbs of the result, with the carry out as one more limb, are the exact result of the limbs and
the carry in; operands apart from the limbs are as before. -/
structure Computed (operation : LongOperation) (width : Width) (tracked : List Operand) (limbs : List Limb) (carry : Bool)
    (start finish : Machine) : Prop where
  value : (number width finish (limbs.map Limb.target) : ℤ) +
      operation.sign * (2 ^ width.bits) ^ limbs.length * finish.carry.toNat =
    number width start (limbs.map Limb.target) +
      operation.sign * (number width start (limbs.map Limb.source) + carry.toNat)
  frame : ∀ operand ∈ tracked, operand.Readable start width → (∀ limb ∈ limbs, limb.target.Apart width operand) →
    operand.reading finish = operand.reading start
  placed : ∀ limb ∈ limbs, limb.target.Writable finish width

/-- One more limb below limbs that are computed with their carry in. -/
theorem LimbRun.cons {limb : Limb} {instruction : UnsignedOperation} {carry : Bool} {start finish : Machine}
    (run : LimbRun host width tracked
      ((instruction, limb) :: limbs.map fun limb => (operation.higher, limb)) start finish)
    (consumes : operation.Consumes start.carry instruction carry) (narrow : width ≠ .w64)
    (prepared : Prepared width tracked (limb :: limbs) start)
    (higher : ∀ middle, LimbRun host width tracked (limbs.map fun limb => (operation.higher, limb)) middle finish →
      Prepared width tracked limbs middle → Computed operation width tracked limbs middle.carry middle finish) :
    Computed operation width tracked (limb :: limbs) carry start finish := by
  have placed := prepared.placed limb List.mem_cons_self
  have inside := prepared.tracked limb List.mem_cons_self
  obtain ⟨away, apart⟩ := List.pairwise_cons.mp prepared.apart
  obtain ⟨middle, first, second, stored, rest, firstValue, secondValue, storedValue, value, kept⟩ :=
    run.first consumes narrow placed inside
  -- The higher limbs are still what they were.
  have same : ∀ other ∈ limbs, other.target.reading middle = other.target.reading start ∧
      other.source.reading middle = other.source.reading start := by
    intro other member
    have before := prepared.placed other (List.mem_cons_of_mem _ member)
    have present := prepared.tracked other (List.mem_cons_of_mem _ member)
    exact ⟨kept _ present.1 (.place before.1) (away other member).1, kept _ present.2 before.2 (away other member).2⟩
  have computed := higher middle rest
    { placed := fun other member =>
        (prepared.placed other (List.mem_cons_of_mem _ member)).of_reading (same other member).1 (same other member).2
      tracked := fun other member => prepared.tracked other (List.mem_cons_of_mem _ member)
      apart := apart }
  have targets : number width middle (limbs.map Limb.target) = number width start (limbs.map Limb.target) :=
    number_congr (by simpa using fun other member => (same other member).1)
  have sources : number width middle (limbs.map Limb.source) = number width start (limbs.map Limb.source) :=
    number_congr (by simpa using fun other member => (same other member).2)
  -- The limb just computed stays as it is.
  have settled : limb.target.reading finish = some stored := by
    rw [← storedValue]
    apply computed.frame _ inside.1
    · exact Operand.Readable.place (placed.1.of_some storedValue)
    · exact fun other member => (away other member).1.symm
  constructor
  · have later := computed.value
    rw [targets, sources] at later
    simp only [List.map_cons, number_cons, settled, firstValue, secondValue, Option.getD_some, List.length_cons]
    push_cast
    linear_combination value + 2 ^ width.bits * later
  · intro operand member readable others
    have before := kept operand member readable (others limb List.mem_cons_self)
    rw [← before]
    exact computed.frame operand member (readable.of_reading before)
      fun other present => others other (List.mem_cons_of_mem _ present)
  · intro other member
    rcases List.mem_cons.mp member with rfl | present
    · exact placed.1.of_some settled
    · exact computed.placed other present

/-- The higher limbs, from any carry. -/
theorem LimbRun.higher {start finish : Machine} (narrow : width ≠ .w64)
    (run : LimbRun host width tracked (limbs.map fun limb => (operation.higher, limb)) start finish)
    (prepared : Prepared width tracked limbs start) :
    Computed operation width tracked limbs start.carry start finish := by
  induction limbs generalizing start with
  | nil =>
    cases run with
    | done between =>
      obtain ⟨carried, kept⟩ := between.keeps
      constructor
      · simp [number, carried]
      · intro operand member _ _
        exact kept operand member
      · exact nofun
  | cons limb limbs ih => exact run.cons .higher narrow prepared fun middle rest later => ih rest later

/-- A number below the modulus and a carry are determined by the exact result. -/
theorem result_of_carry {modulus sign result stored : ℤ} {carry : Bool} (signed : sign = 1 ∨ sign = -1)
    (nonneg : 0 ≤ stored) (small : stored < modulus) (value : stored + sign * modulus * carry.toNat = result) :
    stored = result % modulus ∧ (carry = true ↔ ¬ (0 ≤ result ∧ result < modulus)) := by
  have remainder : stored = result % modulus := by
    rw [← value, mul_right_comm, Int.add_mul_emod_self_right, Int.emod_eq_of_lt nonneg small]
  refine ⟨remainder, ?_⟩
  cases carry with
  | false =>
    simp only [Bool.toNat_false, Nat.cast_zero, mul_zero, add_zero] at value
    simp only [Bool.false_eq_true, false_iff, not_not]
    omega
  | true =>
    simp only [Bool.toNat_true, Nat.cast_one, mul_one] at value
    simp only [true_iff]
    rcases signed with rfl | rfl
    · omega
    · omega

/-- Addition and subtraction of long numbers are exact modulo the size of the numbers, and the carry
says whether the exact result was outside it. -/
theorem longOperation_exact (host : Host) (operation : LongOperation) (width : Width) (narrow : width ≠ .w64) (limb : Limb)
    (limbs : List Limb) (start finish : Machine) (placed : ∀ other ∈ limb :: limbs, other.Placed start width)
    (apart : (limb :: limbs).Pairwise (Limb.Apart width))
    (run : LimbRun host width (limbOperands (limb :: limbs)) (operation.program (limb :: limbs)) start finish) :
    let targets := (limb :: limbs).map Limb.target
    let size := 2 ^ (width.bits * (limb :: limbs).length)
    let result := operation.exact (number width start targets) (number width start ((limb :: limbs).map Limb.source))
    (∀ target ∈ targets, target.Writable finish width) ∧ (number width finish targets : ℤ) = result % size ∧
      (finish.carry = true ↔ ¬ (0 ≤ result ∧ result < size)) := by
  intro targets size result
  have computed := run.cons .lowest narrow ⟨placed, fun _ => mem_limbOperands, apart⟩ fun middle => LimbRun.higher narrow
  have writable : ∀ target ∈ targets, target.Writable finish width := by
    intro target member
    obtain ⟨other, present, rfl⟩ := List.mem_map.mp member
    exact computed.placed other present
  have small : number width finish targets < (2 ^ width.bits) ^ (limb :: limbs).length := by
    have length : targets.length = (limb :: limbs).length := List.length_map ..
    rw [← length]
    exact number_lt fun target member => .place (writable target member)
  have signed : operation.sign = 1 ∨ operation.sign = -1 := by
    cases operation with
    | addition => exact .inl rfl
    | subtraction => exact .inr rfl
  have total := computed.value
  rw [← operation.higher_exact, ← operation.lowest_exact _ _ false] at total
  have value : operation.lowest.exact (number width start targets)
      (number width start ((limb :: limbs).map Limb.source)) false = result := by
    cases operation <;> rfl
  rw [value] at total
  refine ⟨writable, ?_⟩
  have modulus : (size : ℤ) = (2 ^ width.bits) ^ (limb :: limbs).length := pow_mul ..
  rw [modulus]
  exact result_of_carry signed (Int.natCast_nonneg _) (by exact_mod_cast small) total

/-- `ADD .8bit <%R0>, <%R2>` and `ADC .8bit <%R1>, <%R3>`. -/
def addCode : Format.Instruction :=
    ⟨.add, some .w8, [.register (registerOf .w8 0), .register (registerOf .w8 2)], Format.widthed_some .w8, rfl⟩

def adcCode : Format.Instruction :=
    ⟨.adc, some .w8, [.register (registerOf .w8 1), .register (registerOf .w8 3)], Format.widthed_some .w8, rfl⟩

/-- A machine that is about to add `0x0001` in `%R2` and `%R3` to `0x00FF` in `%R0` and `%R1`. -/
def Machine.adding : Machine :=
  let start := Machine.powerOn.overwrite BIOS_START (addCode.bytes ++ adcCode.bytes)
  { start with registers := { start.registers with FullyExtendedRegister := fun _ => 0x000100FF } }

def lowLimb : Limb := ⟨.ofRegister (registerOf .w8 0), .ofRegister (registerOf .w8 2)⟩

def highLimb : Limb := ⟨.ofRegister (registerOf .w8 1), .ofRegister (registerOf .w8 3)⟩

/-- An instruction on two registers, when its bytes lie at `CB:IP`, leads to the code after it. -/
theorem limb_executed (host : Host) (operation : UnsignedOperation) (width : Width) (index : Fin 8) (source : Register)
    {instruction : Format.Instruction} {machine : Machine} {rest : List Byte}
    (code : machine.Code (instruction.bytes ++ rest))
    (binary : operation ≠ .mul) (known : instruction.active machine.registers =
      operation.instruction width (.ofRegister (registerOf width index)) (.ofRegister source)) :
    ∃ fetched after, fetch machine =
        .ok (operation.instruction width (.ofRegister (registerOf width index)) (.ofRegister source)) fetched ∧
      execute host machine = .ok () after ∧ after.Code rest := by
  obtain ⟨fetched, reached, registers, memory⟩ := Format.fetch_bytes instruction code
  rw [known] at reached
  have target : operation.Target width (.ofRegister (registerOf width index)) := fun product => absurd product binary
  have runs := dispatch_unsigned host target (getVal_register (registerOf width index) fetched)
    (getVal_register source fetched)
  rw [setVal_register] at runs
  refine ⟨fetched, _, reached, execute_returns reached runs, ?_⟩
  have place : fetched.codeAddress = (machine.advance instruction.bytes.length).codeAddress :=
    congrArg (fun file => (file.CodeBase + file.InstructionPointer).toNat) registers
  exact code.rest.of_same place memory

/-- The addition of the two register pairs. -/
theorem longOperation_exact_adding :
    ∃ finish, LimbRun Host.ample .w8 (limbOperands [lowLimb, highLimb])
        (LongOperation.addition.program [lowLimb, highLimb]) Machine.adding finish ∧
      (number .w8 finish [lowLimb.target, highLimb.target] : ℤ) = 0x100 ∧ finish.carry = false := by
  have code : Machine.adding.Code (addCode.bytes ++ (adcCode.bytes ++ [])) := by
    rw [Machine.Code]
    decide +kernel
  obtain ⟨fetched, middle, reached, executed, following⟩ := limb_executed Host.ample .add .w8 0 (registerOf .w8 2)
    code (by decide) rfl
  obtain ⟨fetched', finish, reached', executed', -⟩ := limb_executed Host.ample .adc .w8 1 (registerOf .w8 3)
    following (by decide) rfl
  have run : LimbRun Host.ample .w8 (limbOperands [lowLimb, highLimb])
      (LongOperation.addition.program [lowLimb, highLimb]) Machine.adding finish :=
    .limb .refl reached executed (.limb .refl reached' executed' (.done .refl))
  have placed : ∀ other ∈ [lowLimb, highLimb], other.Placed Machine.adding .w8 := by
    simp only [List.forall_mem_cons, List.not_mem_nil, false_implies, implies_true, and_true]
    exact ⟨⟨.register (registerOf .w8 0), .place (.register (registerOf .w8 2))⟩, .register (registerOf .w8 1),
      .place (.register (registerOf .w8 3))⟩
  have apart : [lowLimb, highLimb].Pairwise (Limb.Apart .w8) := by
    simp [Limb.Apart, Operand.Apart, lowLimb, highLimb, Operand.ofRegister, registerOf, Register.code]
  obtain ⟨-, value, carry⟩ := longOperation_exact Host.ample .addition .w8 (by decide) lowLimb [highLimb] Machine.adding
    finish placed apart run
  have first : number .w8 Machine.adding [lowLimb.target, highLimb.target] = 0xFF := by
    simp only [number, List.map, lowLimb, highLimb, Operand.reading_register]
    decide +kernel
  have second : number .w8 Machine.adding [lowLimb.source, highLimb.source] = 0x01 := by
    simp only [number, List.map, lowLimb, highLimb, Operand.reading_register]
    decide +kernel
  simp only [List.map, first, second] at value carry
  refine ⟨finish, run, value.trans (by decide), ?_⟩
  apply Bool.eq_false_iff.mpr
  intro raised
  exact carry.mp raised (by decide)

end Sysdarft
