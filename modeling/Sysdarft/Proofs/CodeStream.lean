import Sysdarft.Library.Reading
import Sysdarft.Proofs.DecoderFormat

/-! # The code as a stream

The decoder as a reader: which pieces of the code stream it takes, what it refuses, and what it makes of them
under a register file. It is not part of the source; the decoder of the CPU is shown to follow it, so that
whether an instruction lies in memory is a question about the code stream alone.
-/

namespace Sysdarft

open Effects Reading

/-! ## The reader -/

abbrev CodeReader := Reader Byte String

def readByte : CodeReader Byte := do
  let data ← Reader.piece 1
  return BitVec.ofNat 8 (LittleEndian.value data)

def readValue (width : Width) : CodeReader Word := do
  let data ← Reader.piece width.bytes
  return BitVec.ofNat 64 (LittleEndian.value data)

def readRegister : CodeReader (Byte × Byte) := do
  let width ← readByte
  let index ← readByte
  return (width, index)

def readConstant : CodeReader (Word × Width) := do
  let code ← readByte
  match Width.ofBcd code with
  | some width => return (← readValue width, width)
  | none => .fail "Unknown constant width"

/-- The register that two bytes name. -/
def nameRegister (widthBCD index : Byte) : CodeReader Register :=
  match Register.ofCodes widthBCD index with
  | some register => return register
  | none => if (Width.ofBcd widthBCD).isSome then .fail "Unknown Register Type" else .fail "Unknown Register Width"

def readParameter (registers : Registers) : CodeReader Word := do
  let code ← readByte
  if code = REGISTER_CODE then
    let (width, index) ← readRegister
    return registers.load (← nameRegister width index)
  else if code = CONSTANT_CODE then return (← readConstant).1
  else .fail "Illegal memory operand"

def readSignedParameter (registers : Registers) : CodeReader Word := do
  let code ← readByte
  if code = REGISTER_CODE then
    let (width, index) ← readRegister
    let name ← nameRegister width index
    return signExtend name.width (registers.load name)
  else if code = CONSTANT_CODE then
    let (value, width) ← readConstant
    return signExtend width value
  else .fail "Illegal memory operand"

def readReference (registers : Registers) : CodeReader (Word × Byte) := do
  let widthBCD ← readByte
  let base ← readParameter registers
  let offset1 ← readParameter registers
  let offset2 ← readSignedParameter registers
  let ratioBCD ← readByte
  match Ratio.ofBcd ratioBCD with
  | none => .fail "Unknown ratio"
  | some ratio =>
    match Width.ofBcd widthBCD with
    | some _ => return ((base + offset1 + offset2) * BitVec.ofNat 64 ratio.factor, widthBCD)
    | none => .fail "Unknown width"

def readOperand (registers : Registers) : CodeReader Operand := do
  let code ← readByte
  if code = REGISTER_CODE then
    let (width, index) ← readRegister
    return .register width index
  else if code = CONSTANT_CODE then
    let (value, width) ← readConstant
    return .constant value width.bcd
  else if code = MEMORY_CODE then
    let (address, width) ← readReference registers
    return .memory address width
  else .fail "Unknown operand type"

def readOperands (registers : Registers) : ℕ → CodeReader (List Operand)
  | 0 => return []
  | count + 1 => do
    let operand ← readOperand registers
    let rest ← readOperands registers count
    return operand :: rest

def readOperationWidth (mnemonic : Mnemonic) : CodeReader Byte :=
  if mnemonic.requiresWidth then do
    let width ← readByte
    match Width.ofBcd width with
    | some _ => return width
    | none => .fail "Unknown width specification"
  else return 0

def readInstruction (registers : Registers) : CodeReader (Mnemonic × Arguments) := do
  let code ← readByte
  match findOpcode code with
  | none => .fail "Unknown instruction"
  | some mnemonic =>
    let width ← readOperationWidth mnemonic
    let operands ← readOperands registers mnemonic.argumentCount
    return (mnemonic, { width := width, operands := operands })

theorem readOperands_counted (registers : Registers) (count : ℕ) :
    (readOperands registers count).Yields fun operands => operands.length = count := by
  induction count with
  | zero => rfl
  | succ count ih =>
    refine yields_bind (yields_trivial _) fun operand _ => yields_bind ih fun operands counted => ?_
    exact congrArg Nat.succ counted

/-- The operands are as many as the instruction has. -/
theorem readInstruction_counted (registers : Registers) :
    (readInstruction registers).Yields fun decoded => decoded.2.operands.length = decoded.1.argumentCount := by
  refine yields_bind (yields_trivial _) fun code _ => ?_
  cases findOpcode code with
  | none => trivial
  | some mnemonic =>
    exact yields_bind (yields_trivial _) fun width _ =>
      yields_bind (readOperands_counted registers mnemonic.argumentCount) fun operands counted => counted

/-- Of the registers, the decoder sees what the operands can name. -/
theorem readInstruction_congr {first second : Registers} (same : first.load = second.load) :
    readInstruction first = readInstruction second := by
  have parameter : readParameter first = readParameter second := by simp only [readParameter, same]
  have signed : readSignedParameter first = readSignedParameter second := by simp only [readSignedParameter, same]
  have operand : readOperand first = readOperand second := by
    simp only [readOperand, readReference, parameter, signed]
  have operands (count : ℕ) : readOperands first count = readOperands second count := by
    induction count with
    | zero => rfl
    | succ count ih => rw [readOperands, readOperands, operand, ih]
  simp only [readInstruction, operands]

/-! ## The decoder follows it -/

/-- The code from `CB:IP` on. Every piece has to lie in memory as a whole. -/
def Machine.codeStream (machine : Machine) : Stream Byte := fun position size =>
  let address := (machine.advance position).codeAddress
  if address + size ≤ machine.memory.total then some (FlatMemory.read machine.memory.peek address size) else none

def Machine.codeTape (machine : Machine) : Tape Byte String Machine Fault where
  place := machine.advance
  stream := machine.codeStream
  raises := .illegalInstruction
  ends := .stackOverflow

variable {machine : Machine}

theorem popCode_follows {size : ℕ} (nonempty : 0 < size) (small : size < 2 ^ 63) :
    Follows machine.codeTape (popCode size) (Reader.piece size) := by
  intro position
  have popped := popCode_apply (machine.advance position) nonempty small
  rw [Reader.piece, Reader.outcome]
  simp only [Machine.codeTape, Machine.codeStream]
  rw [popped]
  by_cases inside : (machine.advance position).codeAddress + size ≤ machine.memory.total
  · rw [if_pos inside, if_pos (show _ ≤ (machine.advance position).memory.total from inside), Machine.advance_advance]
    rfl
  · rw [if_neg inside, if_neg (show ¬ _ ≤ (machine.advance position).memory.total from inside)]
    rfl

theorem popCode8_follows : Follows machine.codeTape popCode8 readByte :=
  follows_bind (popCode_follows Nat.one_pos (by decide)) fun _ => follows_pure _

theorem popCodeWidth_follows (width : Width) : Follows machine.codeTape (popCodeWidth width) (readValue width) :=
  follows_bind (popCode_follows width.bytes_pos (by cases width <;> decide)) fun _ => follows_pure _

theorem decodeRegister_follows : Follows machine.codeTape decodeRegister readRegister :=
  follows_bind popCode8_follows fun _ => follows_bind popCode8_follows fun _ => follows_pure _

theorem decodeConstant_follows : Follows machine.codeTape decodeConstant readConstant := by
  refine follows_bind popCode8_follows fun code => ?_
  cases Width.ofBcd code with
  | none => exact follows_throw "Unknown constant width"
  | some width => exact follows_bind (popCodeWidth_follows width) fun _ => follows_pure _

theorem selectRegister_follows (widthBCD index : Byte) :
    Follows machine.codeTape (selectRegister widthBCD index) (nameRegister widthBCD index) := by
  rw [selectRegister, nameRegister]
  cases Register.ofCodes widthBCD index with
  | some register => exact follows_pure register
  | none => exact follows_ite (follows_throw "Unknown Register Type") (follows_throw "Unknown Register Width")

theorem accessRegister_follows (machine : Machine) (widthBCD index : Byte) :
    Follows machine.codeTape (accessRegister widthBCD index) (do
      return machine.registers.load (← nameRegister widthBCD index)) := by
  refine follows_bind (selectRegister_follows widthBCD index) fun register => follows_look fun position => ?_
  exact congrArg (fun value => EStateM.Result.ok value (machine.advance position)) (Format.load_advance register position)

theorem decodeParameter_follows :
    Follows machine.codeTape decodeParameter (readParameter machine.registers) := by
  refine follows_bind popCode8_follows fun code => follows_ite ?_ (follows_ite ?_ (follows_throw _))
  · exact follows_bind decodeRegister_follows fun codes => accessRegister_follows machine codes.1 codes.2
  · exact follows_bind decodeConstant_follows fun _ => follows_pure _

/-- A register that was found has the width it was looked up with. -/
theorem accessRegister_signed (widthBCD index : Byte) :
    Follows machine.codeTape
      (do
        let value ← accessRegister widthBCD index
        match Width.ofBcd widthBCD with
        | some width => return signExtend width value
        | none => throw (.illegalInstruction "Unknown register width"))
      (do
        let name ← nameRegister widthBCD index
        return signExtend name.width (machine.registers.load name)) := by
  intro position
  have found := accessRegister_follows machine widthBCD index position
  rw [bind_apply, found, outcome_bind, outcome_bind, nameRegister]
  cases known : Register.ofCodes widthBCD index with
  | some register =>
    obtain ⟨rfl, -⟩ := Register.codes_of_ofCodes known
    simp only [pure, Reader.outcome, Outcome.result, Width.ofBcd_bcd]
    rfl
  | none =>
    dsimp only
    split_ifs <;> rfl

theorem decodeSignedParameter_follows :
    Follows machine.codeTape decodeSignedParameter (readSignedParameter machine.registers) := by
  refine follows_bind popCode8_follows fun code => follows_ite ?_ (follows_ite ?_ (follows_throw _))
  · exact follows_bind decodeRegister_follows fun codes => accessRegister_signed codes.1 codes.2
  · exact follows_bind decodeConstant_follows fun _ => follows_pure _

theorem decodeMemory_follows : Follows machine.codeTape decodeMemory (readReference machine.registers) := by
  refine follows_bind popCode8_follows fun widthBCD => follows_bind decodeParameter_follows fun base =>
    follows_bind decodeParameter_follows fun offset1 => follows_bind decodeSignedParameter_follows fun offset2 =>
    follows_bind popCode8_follows fun ratioBCD => ?_
  cases Ratio.ofBcd ratioBCD with
  | none => exact follows_throw "Unknown ratio"
  | some ratio =>
    cases Width.ofBcd widthBCD with
    | none => exact follows_throw "Unknown width"
    | some width => exact follows_pure _

theorem decodeOperand_follows : Follows machine.codeTape decodeOperand (readOperand machine.registers) := by
  refine follows_bind popCode8_follows fun code => follows_ite ?_ (follows_ite ?_ (follows_ite ?_ (follows_throw _)))
  · exact follows_bind decodeRegister_follows fun _ => follows_pure _
  · exact follows_bind decodeConstant_follows fun _ => follows_pure _
  · exact follows_bind decodeMemory_follows fun _ => follows_pure _

theorem decodeOperands_follows (count : ℕ) :
    Follows machine.codeTape (decodeOperands count) (readOperands machine.registers count) := by
  induction count with
  | zero => exact follows_pure _
  | succ count ih => exact follows_bind decodeOperand_follows fun _ => follows_bind ih fun _ => follows_pure _

theorem decodeOperationWidth_follows (mnemonic : Mnemonic) :
    Follows machine.codeTape (decodeOperationWidth mnemonic) (readOperationWidth mnemonic) := by
  refine follows_ite (follows_bind popCode8_follows fun width => ?_) (follows_pure _)
  cases Width.ofBcd width with
  | none => exact follows_throw "Unknown width specification"
  | some _ => exact follows_pure _

/-- The instruction as the decoder hands it on. -/
def activeInstruction (decoded : Mnemonic × Arguments) : ActiveInstruction where
  opcode := decoded.1.opcode
  width := decoded.2.width
  operands := decoded.2.operands

/-- The decoder of the CPU follows the reader. -/
theorem popInstruction_follows (machine : Machine) :
    Follows machine.codeTape popInstruction (do return activeInstruction (← readInstruction machine.registers)) := by
  have known : Follows machine.codeTape popInstruction (do
      let code ← readByte
      match findOpcode code with
      | none => .fail "Unknown instruction"
      | some mnemonic =>
        let width ← readOperationWidth mnemonic
        let operands ← readOperands machine.registers mnemonic.argumentCount
        return activeInstruction (mnemonic, { width := width, operands := operands })) := by
    refine follows_bind popCode8_follows fun code => ?_
    cases found : findOpcode code with
    | none => exact follows_throw "Unknown instruction"
    | some mnemonic =>
      obtain rfl := opcode_of_findOpcode found
      exact follows_bind (decodeOperationWidth_follows mnemonic) fun _ =>
        follows_bind (decodeOperands_follows mnemonic.argumentCount) fun _ => follows_pure _
  intro position
  rw [known position, readInstruction, outcome_bind, outcome_bind, outcome_bind]
  cases readByte.outcome machine.codeTape.stream position with
  | failed message after => rfl
  | starved after => rfl
  | done code after =>
    dsimp only
    cases findOpcode code with
    | none => rfl
    | some mnemonic =>
      simp only [outcome_bind]
      cases (readOperationWidth mnemonic).outcome machine.codeTape.stream after with
      | failed message after => rfl
      | starved after => rfl
      | done width after =>
        dsimp only
        cases (readOperands machine.registers mnemonic.argumentCount).outcome machine.codeTape.stream after <;> rfl

end Sysdarft
