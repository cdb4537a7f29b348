import Sysdarft.Model.Interruption
import Sysdarft.Model.IOHub

/-! # Execution procedures

One definition for each method of `SysdarftCPUInstructionExecutor`, in the order of the source files
`Misc`, `Helper`, `Arithmetic`, `LogicalAndBitwise`, `DataTransfer`, `ControlFlow` and `IOH`. A
procedure receives the width byte and the decoded operands of the instruction.
-/

namespace Sysdarft

/-- `WidthAndOperandsType`. -/
structure Arguments where
  width : Byte
  operands : List Operand

/-- Operand access by subscript. -/
def Arguments.operand (arguments : Arguments) (index : ℕ) : CPU Operand :=
  match arguments.operands[index]? with
  | some operand => pure operand
  | none => throw .undefined

def Arguments.getVal (arguments : Arguments) (index : ℕ) : CPU Word := do
  (← arguments.operand index).getVal

def Arguments.setVal (arguments : Arguments) (index : ℕ) (value : Word) : CPU Unit := do
  (← arguments.operand index).setVal value

/-- The switch over the operation width that every width-dependent procedure makes. -/
def operationWidth (message : String) (code : Byte) : CPU Width :=
  match Width.ofBcd code with
  | some width => pure width
  | none => throw (.illegalInstruction message)

/-- General register `index` of a width, for the registers that procedures name themselves. -/
def registerOf (width : Width) (index : Fin 8) : Register :=
  .general width ⟨index, lt_of_lt_of_le index.isLt (by cases width <;> decide)⟩

def FER3 : Register := registerOf .w64 3

def loadFlag (flag : Flag) : CPU Bool := do
  return getFlag (← getRegisters).FlagRegister flag

/-! ## Misc -/

def nop : CPU Unit := return ()

def hlt : CPU Unit :=
  modify fun machine => { machine with SystemHalted := true }

def igni : CPU Unit := setMask

def alwi : CPU Unit := do
  let fg := (← getRegisters).FlagRegister
  storeFlags (setFlag fg .interruptionMask false)

/-! ## Helper -/

/-- Assign all arithmetic flags: the two overflow flags, and the comparison flags cleared. -/
def arithmeticFlags (flags : Word) (carry overflow : Bool) : Word :=
  setFlag (setFlag (setFlag (setFlag (setFlag flags .carry carry) .overflow overflow) .equal false)
    .largerThan false) .lessThan false

/-- `check_overflow`. Its callers compute the value in 64 bits. -/
def checkOverflow (bcdWidth : Byte) (value : Word) : CPU Word := do
  let width ← operationWidth "Invalid operation width" bcdWidth
  let trimmed := (value.setWidth width.bits).setWidth 64
  let fg := (← getRegisters).FlagRegister
  storeFlags (arithmeticFlags fg (trimmed != value) false)
  return trimmed

/-- `check_overflow_signed`. The 8-bit result is zero-extended, the others are sign-extended. -/
def checkOverflowSigned (bcdWidth : Byte) (value : Word) : CPU Word := do
  let width ← operationWidth "Invalid operation width" bcdWidth
  let overflow := decide (2 ^ (width.bits - 1) - 1 < value.toInt ∨ value.toInt < -2 ^ (width.bits - 1))
  let fg := (← getRegisters).FlagRegister
  storeFlags (arithmeticFlags fg false overflow)
  return if width = .w8 then (value.setWidth 8).setWidth 64 else signExtend width value

/-! ## Arithmetic -/

/-- `add`, `adc`, `sub`, `sbb`: a 64-bit operation on both operands and the carry. -/
def binaryArithmetic (operation : Word → Word → Word → Word) (arguments : Arguments) : CPU Unit := do
  let operand1 ← arguments.getVal 0
  let operand2 ← arguments.getVal 1
  let carry := if ← loadFlag .carry then 1 else 0
  let result ← checkOverflow arguments.width (operation operand1 operand2 carry)
  arguments.setVal 0 result

def add : Arguments → CPU Unit := binaryArithmetic fun operand1 operand2 _ => operand1 + operand2

def adc : Arguments → CPU Unit := binaryArithmetic fun operand1 operand2 carry => operand1 + operand2 + carry

def sub : Arguments → CPU Unit := binaryArithmetic fun operand1 operand2 _ => operand1 - operand2

def sbb : Arguments → CPU Unit := binaryArithmetic fun operand1 operand2 carry => operand1 - operand2 - carry

/-- Register 0 with the bits above the operation width set, as the signed procedures load it. -/
def loadFilled (width : Width) : CPU Word := do
  let value ← loadRegister (registerOf width 0)
  return value ||| ~~~ ((BitVec.allOnes width.bits).setWidth 64)

/-- A positive result is checked as unsigned, any other as signed. -/
def checkSigned (bcdWidth : Byte) (value : Word) : CPU Word :=
  if 0 < value.toInt then checkOverflow bcdWidth value else checkOverflowSigned bcdWidth value

/-- `imul`; the 64-bit product wraps around. -/
def imul (arguments : Arguments) : CPU Unit := do
  let width ← operationWidth "Unknown width" arguments.width
  let base ← loadFilled width
  let factor ← arguments.getVal 0
  let result ← checkSigned arguments.width (factor * base)
  storeRegister (registerOf width 0) result

def mul (arguments : Arguments) : CPU Unit := do
  let width ← operationWidth "Unknown width" arguments.width
  let base ← loadRegister (registerOf width 0)
  let factor ← arguments.getVal 0
  let result ← checkOverflow arguments.width (factor * base)
  storeRegister (registerOf width 0) result

/-- `idiv`. The host traps on the quotient of the least 64-bit integer by minus one. -/
def idiv (host : Host) (arguments : Arguments) : CPU Unit := do
  let width ← operationWidth "Unknown width" arguments.width
  let base ← loadFilled width
  let factor ← arguments.getVal 0
  if factor = 0 then doInterruption host 0x01
  else if base = BitVec.intMin 64 ∧ factor = -1 then throw .arithmeticTrap
  else
    let quotient ← checkSigned arguments.width (base.sdiv factor)
    let remainder ← checkSigned arguments.width (base.srem factor)
    storeRegister (registerOf width 0) quotient
    storeRegister (registerOf width 1) remainder

def div (host : Host) (arguments : Arguments) : CPU Unit := do
  let width ← operationWidth "Unknown width" arguments.width
  let base ← loadRegister (registerOf width 0)
  let factor ← arguments.getVal 0
  if factor = 0 then doInterruption host 0x01
  else
    let quotient ← checkOverflow arguments.width (base / factor)
    let remainder ← checkOverflow arguments.width (base % factor)
    storeRegister (registerOf width 0) quotient
    storeRegister (registerOf width 1) remainder

def neg (arguments : Arguments) : CPU Unit := do
  let operand1 ← arguments.getVal 0
  arguments.setVal 0 (-operand1)
  let _ ← checkOverflow 0x08 0

/-- `cmp`: the flags are captured before they are cleared, and only the comparison flags of the
captured copy are assigned. -/
def cmp (arguments : Arguments) : CPU Unit := do
  let operand1 ← arguments.getVal 0
  let operand2 ← arguments.getVal 1
  let fg := (← getRegisters).FlagRegister
  let _ ← checkOverflow 0x08 0
  storeFlags (setFlag (setFlag (setFlag fg .largerThan (operand2 < operand1)) .lessThan (operand1 < operand2))
    .equal (operand1 == operand2))

/-- `inc` and `dec`: a 64-bit operation on one operand. -/
def unaryArithmetic (operation : Word → Word) (arguments : Arguments) : CPU Unit := do
  let operand1 ← arguments.getVal 0
  let result ← checkOverflow arguments.width (operation operand1)
  arguments.setVal 0 result

def inc : Arguments → CPU Unit := unaryArithmetic fun operand1 => operand1 + 1

def dec : Arguments → CPU Unit := unaryArithmetic fun operand1 => operand1 - 1

/-! ## Logical and bitwise -/

/-- `and_`, `or_`, `xor_`, `shl`, `shr`: a 64-bit operation on both operands, no flags. -/
def binaryLogic (operation : Word → Word → Word) (arguments : Arguments) : CPU Unit := do
  let operand1 ← arguments.getVal 0
  let operand2 ← arguments.getVal 1
  arguments.setVal 0 (operation operand1 operand2)

def and_ : Arguments → CPU Unit := binaryLogic fun operand1 operand2 => operand1 &&& operand2

def or_ : Arguments → CPU Unit := binaryLogic fun operand1 operand2 => operand1 ||| operand2

def xor_ : Arguments → CPU Unit := binaryLogic fun operand1 operand2 => operand1 ^^^ operand2

def not_ (arguments : Arguments) : CPU Unit := do
  let operand1 ← arguments.getVal 0
  arguments.setVal 0 (~~~ operand1)

/-- The count is not checked, and counts from 64 on are left to the host. -/
def shl (host : Host) : Arguments → CPU Unit :=
  binaryLogic fun operand1 operand2 =>
    if operand2.toNat < 64 then operand1 <<< operand2.toNat else host.shiftsLeft operand1 operand2

def shr (host : Host) : Arguments → CPU Unit :=
  binaryLogic fun operand1 operand2 =>
    if operand2.toNat < 64 then operand1 >>> operand2.toNat else host.shiftsRight operand1 operand2

/-- `rol` and `ror`: rotate the operand cut to the operation width. -/
def rotate (rotation : (bits : ℕ) → BitVec bits → ℕ → BitVec bits) (arguments : Arguments) : CPU Unit := do
  let operand1 ← arguments.getVal 0
  let operand2 ← arguments.getVal 1
  let width ← operationWidth "Unknown width" arguments.width
  arguments.setVal 0 ((rotation width.bits (operand1.setWidth width.bits) operand2.toNat).setWidth 64)

def rol : Arguments → CPU Unit := rotate fun _ value n => value.rotateLeft n

def ror : Arguments → CPU Unit := rotate fun _ value n => value.rotateRight n

/-- One turn of the `rcl` loop: the top bit becomes the carry, the old carry the lowest bit. The
lowest bit is cleared with the 32-bit constant `~1U`, which also clears the upper half of a 64-bit
value. -/
def rclStep {bits : ℕ} (value : BitVec bits) (cf : Bool) : BitVec bits × Bool :=
  (if cf then (value <<< 1) ||| 1 else (value <<< 1) &&& (0xFFFFFFFE#32).setWidth bits,
    value.getLsbD (bits - 1))

/-- One turn of the `rcr` loop: the lowest bit becomes the carry, the old carry the top bit. -/
def rcrStep {bits : ℕ} (value : BitVec bits) (cf : Bool) : BitVec bits × Bool :=
  ((value >>> 1) ||| (if cf then 1 <<< (bits - 1) else 0), value.getLsbD 0)

/-- Repeat a turn. -/
def rotateTurns {bits : ℕ} (turn : BitVec bits → Bool → BitVec bits × Bool) :
    ℕ → BitVec bits → Bool → BitVec bits × Bool
  | 0, value, cf => (value, cf)
  | n + 1, value, cf =>
    let (value, cf) := turn value cf
    rotateTurns turn n value cf

/-- `rcl` and `rcr`: the count is cut to 32 bits and taken modulo one more than the width. -/
def rotateCarry (turn : {bits : ℕ} → BitVec bits → Bool → BitVec bits × Bool) (arguments : Arguments) : CPU Unit := do
  let operand1 ← arguments.getVal 0
  let operand2 ← arguments.getVal 1
  let cf ← loadFlag .carry
  let width ← operationWidth "Unknown width" arguments.width
  let turns := operand2.toNat % 2 ^ 32 % (width.bits + 1)
  let (result, cf) := rotateTurns turn turns (operand1.setWidth width.bits) cf
  let fg := (← getRegisters).FlagRegister
  storeFlags (setFlag fg .carry cf)
  arguments.setVal 0 (result.setWidth 64)

def rcl : Arguments → CPU Unit := rotateCarry rclStep

def rcr : Arguments → CPU Unit := rotateCarry rcrStep

/-! ## Data transfer -/

/-- `push_stack`. -/
def pushStack (data : List Byte) : CPU Unit := do
  let registers ← getRegisters
  let size := BitVec.ofNat 64 data.length
  if registers.StackPointer < size then throw .stackOverflow
  else
    let newLowerEnd := registers.StackPointer - size
    asStackOverflow (writeMemory (newLowerEnd + registers.StackBase) data size)
    modifyRegisters fun registers => { registers with StackPointer := newLowerEnd }

/-- `pop_stack`. -/
def popStack (size : ℕ) : CPU (List Byte) := do
  let registers ← getRegisters
  let data ← asStackOverflow
    (readMemory (registers.StackBase + registers.StackPointer) (BitVec.ofNat 64 size))
  modifyRegisters fun current =>
    { current with StackPointer := registers.StackPointer + BitVec.ofNat 64 size }
  return data

def pushWord (value : Word) : CPU Unit := pushStack (LittleEndian.bytes 8 value.toNat)

def popWord : CPU Word := do
  return BitVec.ofNat 64 (LittleEndian.value (← popStack 8))

def mov (arguments : Arguments) : CPU Unit := do
  let src ← arguments.getVal 1
  arguments.setVal 0 src

def xchg (arguments : Arguments) : CPU Unit := do
  let operand1 ← arguments.getVal 0
  let operand2 ← arguments.getVal 1
  arguments.setVal 0 operand2
  arguments.setVal 1 operand1

def push (arguments : Arguments) : CPU Unit := do
  let operand1 ← arguments.getVal 0
  let width ← operationWidth "Unknown width" arguments.width
  pushStack (LittleEndian.bytes width.bytes operand1.toNat)

def pop (arguments : Arguments) : CPU Unit := do
  let width ← operationWidth "Unknown width" arguments.width
  let data ← popStack width.bytes
  arguments.setVal 0 (BitVec.ofNat 64 (LittleEndian.value data))

/-- `pushall_data`: the register file without the code registers and the protected mode registers. -/
def pushallData (registers : Registers) : List Word :=
  List.ofFn registers.FullyExtendedRegister ++
    [registers.FlagRegister, registers.StackBase, registers.StackPointer, registers.DataBase,
      registers.DataPointer, registers.ExtendedBase, registers.ExtendedPointer,
      registers.CurrentProcedureStackPreservationSpace]

def pushall : CPU Unit := do
  pushStack (LittleEndian.wordBytes (pushallData (← getRegisters)))

def popall : CPU Unit := do
  let data ← popStack 192
  modifyRegisters fun registers =>
    { registers with
      FullyExtendedRegister := fun index => LittleEndian.wordAt data index
      FlagRegister := LittleEndian.wordAt data 16
      StackBase := LittleEndian.wordAt data 17
      StackPointer := LittleEndian.wordAt data 18
      DataBase := LittleEndian.wordAt data 19
      DataPointer := LittleEndian.wordAt data 20
      ExtendedBase := LittleEndian.wordAt data 21
      ExtendedPointer := LittleEndian.wordAt data 22
      CurrentProcedureStackPreservationSpace := LittleEndian.wordAt data 23 }

def enter (arguments : Arguments) : CPU Unit := do
  let operand1 ← arguments.getVal 0
  modifyRegisters fun registers =>
    { registers with
      CurrentProcedureStackPreservationSpace := operand1
      StackPointer := registers.StackPointer - operand1 }

def leave : CPU Unit :=
  modifyRegisters fun registers =>
    { registers with
      StackPointer := registers.StackPointer + registers.CurrentProcedureStackPreservationSpace
      CurrentProcedureStackPreservationSpace := 0 }

/-- `movs`: copy `%FER3` bytes through a host buffer of that size. -/
def movs (host : Host) : CPU Unit := do
  let registers ← getRegisters
  let dest := registers.DataPointer + registers.DataBase
  let src := registers.ExtendedPointer + registers.ExtendedBase
  let count := registers.load FER3
  allocate host count.toNat
  let buffer ← readMemory src count
  writeMemory dest buffer count

def lea (arguments : Arguments) : CPU Unit := do
  let effective_addr := (← arguments.operand 1).getEffectiveAddr
  arguments.setVal 0 effective_addr

/-! ## Control flow -/

def setCodeAddress (codeBase ip : Word) : CPU Unit :=
  modifyRegisters fun registers => { registers with CodeBase := codeBase, InstructionPointer := ip }

def jmp (arguments : Arguments) : CPU Unit := do
  let addr_base ← arguments.getVal 0
  let ip ← arguments.getVal 1
  setCodeAddress addr_base ip

def call (arguments : Arguments) : CPU Unit := do
  let registers ← getRegisters
  pushWord registers.CodeBase
  pushWord registers.InstructionPointer
  jmp arguments

def ret : CPU Unit := do
  let ip ← popWord
  let cb ← popWord
  setCodeAddress cb ip

/-- The conditional jumps: a condition on the flags, then the jump. -/
def jumpIf (condition : Word → Bool) (arguments : Arguments) : CPU Unit := do
  if condition (← getRegisters).FlagRegister then jmp arguments else return ()

def je : Arguments → CPU Unit := jumpIf fun flags => getFlag flags .equal

def jne : Arguments → CPU Unit := jumpIf fun flags => !getFlag flags .equal

def jb : Arguments → CPU Unit := jumpIf fun flags => getFlag flags .largerThan

def jl : Arguments → CPU Unit := jumpIf fun flags => getFlag flags .lessThan

def jbe : Arguments → CPU Unit := jumpIf fun flags => getFlag flags .equal || getFlag flags .largerThan

def jle : Arguments → CPU Unit := jumpIf fun flags => getFlag flags .equal || getFlag flags .lessThan

def jc : Arguments → CPU Unit := jumpIf fun flags => getFlag flags .carry

def jnc : Arguments → CPU Unit := jumpIf fun flags => !getFlag flags .carry

def jo : Arguments → CPU Unit := jumpIf fun flags => getFlag flags .overflow

def jno : Arguments → CPU Unit := jumpIf fun flags => !getFlag flags .overflow

def int_ (host : Host) (arguments : Arguments) : CPU Unit := do
  let code ← arguments.getVal 0
  doInterruption host code

def int3 (host : Host) : CPU Unit := doInterruption host 0x03

def iret : CPU Unit := doIret

def loop (arguments : Arguments) : CPU Unit := do
  let cx := (← loadRegister FER3) - 1
  if cx ≠ 0 then
    jmp arguments
    storeRegister FER3 cx
  else storeRegister FER3 0

/-! ## Input and output -/

def in_ (host : Host) (arguments : Arguments) : CPU Unit := do
  let port ← arguments.getVal 0
  let device ← hubIns host port
  let data ← popStream64 device port
  arguments.setVal 1 data

def out (host : Host) (arguments : Arguments) : CPU Unit := do
  let port ← arguments.getVal 0
  let data ← arguments.getVal 1
  hubOuts host port (LittleEndian.bytes 8 data.toNat)

def ins (host : Host) (arguments : Arguments) : CPU Unit := do
  let registers ← getRegisters
  let cx := registers.load FER3
  let port ← arguments.getVal 0
  let device ← hubIns host port
  let stream := (← get).stream device port
  if stream.length ≠ cx.toNat then throw (.deviceIOError "IO data length mismatch")
  else
    allocate host stream.length
    setStream device port []
    writeMemory (registers.DataBase + registers.DataPointer) stream cx

def outs (host : Host) (arguments : Arguments) : CPU Unit := do
  let registers ← getRegisters
  let cx := registers.load FER3
  let port ← arguments.getVal 0
  allocate host cx.toNat
  let wbuf ← readMemory (registers.DataBase + registers.DataPointer) cx
  hubOuts host port wbuf

end Sysdarft
