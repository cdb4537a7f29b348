import Sysdarft.Proofs.Interruption
import Sysdarft.Proofs.ProcedureFrame

/-! # What goes wrong first in an instruction

For every instruction the accesses and checks it makes, in the order in which its procedure makes them,
with the state before the procedure deciding which of them fail. The exception of a procedure is that of
the first one. An access outside memory is told apart by the way it takes: the same low-level failure
reaches the executor as a different exception on different ways.
-/

namespace Sysdarft

open Effects

/-- The ways to memory. `frame` is the push of an interruption's frame, `transfer` a block of bytes. -/
inductive Site where
  | fetch | operandRead | operandWrite | transfer | stack | frame
deriving DecidableEq, Repr

/-- The exception that an access outside memory ends in. A frame that does not fit is redirected to the
handler of stack overflows, and the instruction aborted. -/
def Site.fault : Site → Fault
  | fetch | operandRead | stack => .stackOverflow
  | operandWrite | transfer => .illegalMemoryAccess "Memory access out of bounds"
  | frame => .abort

inductive Trouble where
  | outside (site : Site)
  | other (fault : Fault)
deriving DecidableEq, Repr

def Trouble.raises : Trouble → Fault
  | outside site => site.fault
  | other fault => fault

/-- The first trouble of a list of accesses and checks. -/
def firstTrouble (steps : List (Option Trouble)) : Option Trouble := steps.findSome? id

/-- The exception of a list of accesses and checks. -/
def raisedBy (steps : List (Option Trouble)) : Option Fault := (firstTrouble steps).map Trouble.raises

@[simp] theorem raisedBy_nil : raisedBy [] = none := rfl

@[simp] theorem raisedBy_cons (step : Option Trouble) (steps : List (Option Trouble)) :
    raisedBy (step :: steps) = (step.map Trouble.raises).or (raisedBy steps) := by
  cases step with
  | none => rfl
  | some trouble => rfl

/-- A step and the steps after it. -/
theorem thrown_step {α β : Type} {x : CPU α} {f : α → CPU β} {machine : Machine} {step : Option Trouble}
    {steps : List (Option Trouble)} (first : thrown (x machine) = step.map Trouble.raises)
    (next : ∀ a after, x machine = .ok a after → thrown (f a after) = raisedBy steps) :
    thrown ((x >>= f) machine) = raisedBy (step :: steps) := by
  rw [raisedBy_cons, ← first]
  exact thrown_bind next

/-- A step that only looks at the state. -/
theorem thrown_look {α β : Type} {x : CPU α} {f : α → CPU β} {machine : Machine} {step : Option Trouble}
    {steps : List (Option Trouble)} (kept : Keeps id x) (first : thrown (x machine) = step.map Trouble.raises)
    (next : ∀ a, x machine = .ok a machine → thrown (f a machine) = raisedBy steps) :
    thrown ((x >>= f) machine) = raisedBy (step :: steps) := by
  apply thrown_step first
  intro a after done
  obtain rfl := keeps_all_ok kept done
  exact next a done

/-- A last step. -/
theorem thrown_last {α : Type} {x : CPU α} {machine : Machine} {step : Option Trouble}
    (last : thrown (x machine) = step.map Trouble.raises) : thrown (x machine) = raisedBy [step] := by
  rw [last, raisedBy_cons, raisedBy_nil, Option.or_none]

/-! ## Operands -/

theorem Machine.holds_congr {first second : Machine} (same : first.memory.total = second.memory.total) (address : Word)
    (width : Width) : first.Holds address width ↔ second.Holds address width := by
  rw [Machine.Holds, Machine.Holds, same]

namespace Operand

/-- A register that the tables do not have. -/
def registerTrouble (widthBCD index : Byte) : Option Trouble :=
  match Register.ofCodes widthBCD index with
  | some _ => none
  | none =>
    if (Width.ofBcd widthBCD).isSome then some (.other (.illegalInstruction "Unknown Register Type"))
    else some (.other (.illegalInstruction "Unknown Register Width"))

def readTrouble (machine : Machine) : Operand → Option Trouble
  | register widthBCD index => registerTrouble widthBCD index
  | constant _ _ => none
  | memory address widthBCD =>
    match Width.ofBcd widthBCD with
    | none => some (.other (.illegalInstruction "Unknown memory access width"))
    | some width => if machine.Holds address width then none else some (.outside .operandRead)

def writeTrouble (machine : Machine) : Operand → Option Trouble
  | register widthBCD index => registerTrouble widthBCD index
  | constant _ _ => some (.other (.illegalInstruction "Unknown error!"))
  | memory address widthBCD =>
    match Width.ofBcd widthBCD with
    | none => some (.other (.illegalInstruction "Unknown Error!"))
    | some width => if machine.Holds address width then none else some (.outside .operandWrite)

theorem selectRegister_thrown (widthBCD index : Byte) (machine : Machine) :
    thrown (selectRegister widthBCD index machine) = (registerTrouble widthBCD index).map Trouble.raises := by
  rw [selectRegister, registerTrouble]
  cases Register.ofCodes widthBCD index with
  | some register => rfl
  | none =>
    dsimp only
    split_ifs <;> rfl

theorem getVal_thrown (operand : Operand) (machine : Machine) :
    thrown (operand.getVal machine) = (operand.readTrouble machine).map Trouble.raises := by
  cases operand with
  | register widthBCD index =>
    rw [getVal, accessRegister, readTrouble, ← selectRegister_thrown widthBCD index machine]
    exact thrown_bind_safe fun _ _ _ => rfl
  | constant value width => rfl
  | memory address widthBCD =>
    cases known : Width.ofBcd widthBCD with
    | none => simp only [getVal, readTrouble, known, throw_apply, thrown_error, Option.map_some, Trouble.raises]
    | some width =>
      obtain rfl := Width.bcd_of_ofBcd known
      simp only [readTrouble, known]
      by_cases inside : machine.Holds address width
      · rw [getVal_memory inside, if_pos inside]
        rfl
      · rw [getVal_memory_outside inside, if_neg inside]
        rfl

/-- The machine after a store that succeeds. -/
def stored (machine : Machine) (value : Word) : Operand → Machine
  | register widthBCD index =>
    match Register.ofCodes widthBCD index with
    | some name => { machine with registers := machine.registers.store value name }
    | none => machine
  | constant _ _ => machine
  | memory address widthBCD =>
    match Width.ofBcd widthBCD with
    | some width => machine.overwrite address.toNat (LittleEndian.bytes width.bytes value.toNat)
    | none => machine

@[simp] theorem stored_total (machine : Machine) (value : Word) (operand : Operand) :
    (operand.stored machine value).memory.total = machine.memory.total := by
  cases operand with
  | register widthBCD index =>
    rw [stored]
    cases Register.ofCodes widthBCD index with
    | none => rfl
    | some register => rfl
  | constant constant width => rfl
  | memory address widthBCD =>
    rw [stored]
    cases Width.ofBcd widthBCD with
    | none => rfl
    | some width => rfl

/-- A store succeeds, or throws without an effect. -/
theorem setVal_cases (operand : Operand) (value : Word) (machine : Machine) :
    (operand.writeTrouble machine = none ∧ operand.setVal value machine = .ok () (operand.stored machine value)) ∨
    ∃ trouble, operand.writeTrouble machine = some trouble ∧
      operand.setVal value machine = .error trouble.raises machine := by
  cases operand with
  | register widthBCD index =>
    have failure := selectRegister_thrown widthBCD index machine
    rw [writeTrouble, setVal, stored]
    cases known : Register.ofCodes widthBCD index with
    | some register =>
      left
      simp only [registerTrouble, known, selectRegister]
      exact ⟨trivial, rfl⟩
    | none =>
      right
      rcases keeps_all_cases (keeps_selectRegister widthBCD index) machine with ⟨register, selected⟩ | ⟨fault, failed⟩
      · simp only [selectRegister, known] at selected
        split_ifs at selected <;> cases selected
      · rw [failed] at failure
        obtain ⟨trouble, found, raises⟩ := Option.map_eq_some_iff.mp failure.symm
        refine ⟨trouble, found, ?_⟩
        rw [bind_error failed, raises]
  | constant constant width => exact .inr ⟨_, rfl, rfl⟩
  | memory address widthBCD =>
    cases known : Width.ofBcd widthBCD with
    | none =>
      right
      refine ⟨.other (.illegalInstruction "Unknown Error!"), by simp only [writeTrouble, known], ?_⟩
      simp only [setVal, known, throw_apply, Trouble.raises]
    | some width =>
      obtain rfl := Width.bcd_of_ofBcd known
      simp only [writeTrouble, stored, known]
      by_cases inside : machine.Holds address width
      · exact .inl ⟨if_pos inside, setVal_memory value inside⟩
      · exact .inr ⟨_, if_neg inside, setVal_memory_outside value inside⟩

theorem setVal_thrown (operand : Operand) (value : Word) (machine : Machine) :
    thrown (operand.setVal value machine) = (operand.writeTrouble machine).map Trouble.raises := by
  rcases operand.setVal_cases value machine with ⟨fine, stores⟩ | ⟨trouble, known, failed⟩
  · rw [stores, fine]
    rfl
  · rw [failed, known]
    rfl

/-- Only the size of memory decides about a write. -/
theorem writeTrouble_congr {first second : Machine} (same : first.memory.total = second.memory.total)
    (operand : Operand) : operand.writeTrouble first = operand.writeTrouble second := by
  cases operand with
  | register widthBCD index => rfl
  | constant value width => rfl
  | memory address widthBCD =>
    rw [writeTrouble, writeTrouble]
    cases Width.ofBcd widthBCD with
    | none => rfl
    | some width => exact if_congr (Machine.holds_congr same address width) rfl rfl

end Operand

namespace Arguments

/-- A check of an operand that is selected by subscript. -/
def check (test : Operand → Option Trouble) (arguments : Arguments) (index : ℕ) : Option Trouble :=
  match arguments.operands[index]? with
  | some operand => test operand
  | none => some (.other .undefined)

def reads (machine : Machine) : Arguments → ℕ → Option Trouble := check (Operand.readTrouble machine)

def writes (machine : Machine) : Arguments → ℕ → Option Trouble := check (Operand.writeTrouble machine)

theorem check_thrown {α : Type} {access : Operand → CPU α} {test : Operand → Option Trouble} {machine : Machine}
    (known : ∀ operand, thrown (access operand machine) = (test operand).map Trouble.raises) (arguments : Arguments)
    (index : ℕ) :
    thrown ((arguments.operand index >>= access) machine) = (arguments.check test index).map Trouble.raises := by
  rw [operand, check]
  cases arguments.operands[index]? with
  | none => rfl
  | some operand => exact known operand

theorem getVal_thrown (arguments : Arguments) (index : ℕ) (machine : Machine) :
    thrown (arguments.getVal index machine) = (arguments.reads machine index).map Trouble.raises :=
  check_thrown (fun operand => operand.getVal_thrown machine) arguments index

theorem setVal_thrown (arguments : Arguments) (index : ℕ) (value : Word) (machine : Machine) :
    thrown (arguments.setVal index value machine) = (arguments.writes machine index).map Trouble.raises :=
  check_thrown (fun operand => operand.setVal_thrown value machine) arguments index

variable {first second : Machine}

theorem writes_congr (same : first.memory.total = second.memory.total) (arguments : Arguments) (index : ℕ) :
    arguments.writes first index = arguments.writes second index := by
  rw [writes, writes, funext (Operand.writeTrouble_congr same)]

end Arguments

/-! ## Checks, the stack and transfers -/

def widthTrouble (message : String) (code : Byte) : Option Trouble :=
  match Width.ofBcd code with
  | some _ => none
  | none => some (.other (.illegalInstruction message))

theorem operationWidth_thrown (message : String) (code : Byte) (machine : Machine) :
    thrown (operationWidth message code machine) = (widthTrouble message code).map Trouble.raises := by
  rw [operationWidth, widthTrouble]
  cases Width.ofBcd code with
  | none => rfl
  | some width => rfl

def allocationTrouble (host : Host) (size : ℕ) : Option Trouble :=
  if host.allocates size then none else some (.other .badAllocation)

theorem allocate_thrown (host : Host) (size : ℕ) (machine : Machine) :
    thrown (allocate host size machine) = (allocationTrouble host size).map Trouble.raises := by
  rw [allocate, allocationTrouble]
  split_ifs <;> rfl

/-- A push at a stack pointer. -/
def pushTrouble (machine : Machine) (stackPointer : Word) (size : ℕ) : Option Trouble :=
  if machine.HasRoom machine.registers.StackBase stackPointer size then none else some (.outside .stack)

/-- A pop at a stack pointer. -/
def popTrouble (machine : Machine) (stackPointer : Word) (size : ℕ) : Option Trouble :=
  if (machine.registers.StackBase + stackPointer).toNat + size ≤ machine.memory.total then none
  else some (.outside .stack)

/-- The machine after a push. -/
def Machine.pushed (machine : Machine) (data : List Byte) : Machine :=
  let stackPointer := machine.registers.StackPointer - BitVec.ofNat 64 data.length
  { machine.overwrite (machine.registers.StackBase + stackPointer).toNat data with
    registers := { machine.registers with StackPointer := stackPointer } }

/-- The machine after a pop. -/
def Machine.popped (machine : Machine) (size : ℕ) : Machine :=
  { machine with
    registers := { machine.registers with StackPointer := machine.registers.StackPointer + BitVec.ofNat 64 size } }

/-- A push succeeds or throws without an effect. -/
theorem pushStack_cases (machine : Machine) (data : List Byte) (nonempty : 0 < data.length)
    (small : data.length < 2 ^ 63) :
    (pushTrouble machine machine.registers.StackPointer data.length = none ∧
      pushStack data machine = .ok () (machine.pushed data)) ∨
    (pushTrouble machine machine.registers.StackPointer data.length = some (.outside .stack) ∧
      pushStack data machine = .error .stackOverflow machine) := by
  have same : pushStack data machine =
      (do
        let sp ← pushMemoryTo machine.registers.StackBase machine.registers.StackPointer data
        modifyRegisters fun registers => { registers with StackPointer := sp } : CPU Unit) machine := by
    simp only [pushStack, pushMemoryTo, getRegisters, bind_apply, get_apply, pure_apply,
      BitVec.add_comm machine.registers.StackBase]
    split_ifs with short
    · rfl
    · simp only [bind_apply]
      cases asStackOverflow (writeMemory _ data _) machine <;> rfl
  rw [same]
  by_cases room : machine.HasRoom machine.registers.StackBase machine.registers.StackPointer data.length
  · exact .inl ⟨if_pos room, by rw [bind_ok (pushMemoryTo_room _ _ data nonempty small room)]; rfl⟩
  · exact .inr ⟨if_neg room, bind_error (pushMemoryTo_full _ _ data small room)⟩

/-- A pop succeeds or throws without an effect. -/
theorem popStack_cases (machine : Machine) (size : ℕ) (nonempty : 0 < size) (small : size < 2 ^ 63) :
    (popTrouble machine machine.registers.StackPointer size = none ∧
      ∃ data, popStack size machine = .ok data (machine.popped size)) ∨
    (popTrouble machine machine.registers.StackPointer size = some (.outside .stack) ∧
      popStack size machine = .error .stackOverflow machine) := by
  have count : (BitVec.ofNat 64 size).toNat = size := by
    rw [BitVec.toNat_ofNat, Nat.mod_eq_of_lt (by omega)]
  by_cases inside : (machine.registers.StackBase + machine.registers.StackPointer).toNat + size ≤ machine.memory.total
  · have read : readMemory (machine.registers.StackBase + machine.registers.StackPointer) (BitVec.ofNat 64 size) machine =
        .ok _ machine := readMemory_inside (by rw [count]; exact inside) (by rw [count]; exact nonempty)
    refine .inl ⟨if_pos inside, ?_⟩
    simp only [popStack, getRegisters, bind_apply, get_apply, pure_apply, asStackOverflow, tryCatch_apply, read,
      modifyRegisters, modify_apply]
    exact ⟨_, rfl⟩
  · have outside : readMemory (machine.registers.StackBase + machine.registers.StackPointer) (BitVec.ofNat 64 size)
        machine = .error _ machine :=
      readMemory_outside (by rw [count]; exact small) (by rw [count]; exact not_le.mp inside)
    refine .inr ⟨if_neg inside, ?_⟩
    simp only [popStack, getRegisters, bind_apply, get_apply, pure_apply, asStackOverflow, tryCatch_apply, outside,
      throw_apply]

/-- A block of bytes. An empty block at the end of memory takes the address of a page that is not there. -/
def transferTrouble (machine : Machine) (address : Word) (size : ℕ) : Option Trouble :=
  if machine.memory.total < address.toNat + size then some (.outside .transfer)
  else if address.toNat = machine.memory.total then some (.other .undefined)
  else none

section Transfers

variable {machine : Machine} {address size : Word}

private theorem transfer_end (inside : ¬ machine.memory.total < address.toNat + size.toNat)
    (atEnd : address.toNat = machine.memory.total) : address = machine.memory.paged.TotalMemory ∧ size = 0 :=
  ⟨BitVec.eq_of_toNat_eq atEnd, BitVec.eq_of_toNat_eq (show size.toNat = 0 by omega)⟩

theorem readMemory_thrown (small : size.toNat < 2 ^ 63) :
    thrown (readMemory address size machine) = (transferTrouble machine address size.toNat).map Trouble.raises := by
  rw [transferTrouble]
  by_cases outside : machine.memory.total < address.toNat + size.toNat
  · rw [readMemory_outside small outside, if_pos outside]
    rfl
  · rw [if_neg outside]
    by_cases atEnd : address.toNat = machine.memory.total
    · obtain ⟨rfl, rfl⟩ := transfer_end outside atEnd
      rw [readMemory, PagedMemory.readMemory_end, if_pos atEnd]
      rfl
    · have started : address.toNat < machine.memory.paged.TotalMemory.toNat := by
        rw [GuestMemory.total] at outside atEnd
        omega
      rw [readMemory, PagedMemory.readMemory_flat machine.memory.aligned (not_lt.mp outside) started, if_neg atEnd]
      rfl

/-- A block is written whole, or nothing is. -/
theorem writeMemory_cases (source : List Byte) (length : source.length = size.toNat) (small : size.toNat < 2 ^ 63) :
    (transferTrouble machine address size.toNat = none ∧
      ∃ after, writeMemory address source size machine = .ok () after ∧ after.memory.total = machine.memory.total) ∨
    ∃ trouble, transferTrouble machine address size.toNat = some trouble ∧
      writeMemory address source size machine = .error trouble.raises machine := by
  simp only [transferTrouble]
  by_cases outside : machine.memory.total < address.toNat + size.toNat
  · exact .inr ⟨_, if_pos outside, writeMemory_outside source small outside⟩
  · rw [if_neg outside]
    by_cases atEnd : address.toNat = machine.memory.total
    · obtain ⟨rfl, rfl⟩ := transfer_end outside atEnd
      refine .inr ⟨_, if_pos atEnd, ?_⟩
      simp only [writeMemory, PagedMemory.writeMemory_end]
      rfl
    · have started : address.toNat < machine.memory.paged.TotalMemory.toNat := by
        rw [GuestMemory.total] at outside atEnd
        omega
      obtain ⟨paged, written, total, -⟩ :=
        PagedMemory.writeMemory_flat machine.memory.aligned (not_lt.mp outside) started length
      refine .inl ⟨if_neg atEnd, ?_⟩
      simp only [writeMemory, written]
      exact ⟨_, rfl, congrArg BitVec.toNat total⟩

end Transfers

/-! ## The table -/

/-- What goes wrong in the delivery of an interruption. -/
def interruptionTrouble (host : Host) (machine : Machine) (code : Word) : Option Trouble :=
  if BitVec.ofNat 64 MAX_INTERRUPTION_ENTRY < code then some (.other (.badInterruption "Interruption out of range"))
  else if Held code machine then none
  else if code = 0x100 then some (.other (.interruptionOutOfRange "No such interruption: 256"))
  else if code = 0x03 then if machine.FrameFits then none else some (.outside .stack)
  else if code = 0x11 then
    if (machine.registers.load EXR0).toNat > V_WIDTH * V_HEIGHT - 1 then
      some (.other (.badInterruption "Teletype linear address out of range"))
    else none
  else if code = 0x17 then if host.startsThread then none else some (.other .systemError)
  else if (builtInHandler host code).isSome then none
  else if machine.FrameFits then none
  else some (.outside .frame)

/-- What goes wrong in a device or the hub. -/
def deviceTrouble {α : Type} (access : CPU α) (machine : Machine) : Option Trouble :=
  (thrown (access machine)).map .other

/-- The value of an operand that can be read. -/
def Arguments.value (machine : Machine) (arguments : Arguments) (index : ℕ) : Word :=
  match arguments.getVal index machine with
  | .ok value _ => value
  | .error _ _ => 0

/-- The dividend of `idiv`. -/
def filledBase (registers : Registers) (width : Width) : Word :=
  registers.load (registerOf width 0) ||| ~~~ ((BitVec.allOnes width.bits).setWidth 64)

/-- A division by zero, and the quotient that the host traps on. -/
def divisionTrouble (host : Host) (machine : Machine) (arguments : Arguments) (traps : Width → Word → Bool) :
    Option Trouble :=
  let factor := arguments.value machine 0
  if factor = 0 then interruptionTrouble host machine 0x01
  else
    match Width.ofBcd arguments.width with
    | some width => if traps width factor then some (.other .arithmeticTrap) else none
    | none => none

/-- What `ins` asks of the hub before it writes to memory. -/
def insRequest (host : Host) (port cx : Word) : CPU (DeviceIndex × List Byte) := do
  let device ← hubIns host port
  let stream := (← get).stream device port
  if stream.length ≠ cx.toNat then throw (.deviceIOError "IO data length mismatch")
  else
    allocate host stream.length
    return (device, stream)

/-- What `in_` asks of the hub. -/
def inRequest (host : Host) (port : Word) : CPU Word := do
  let device ← hubIns host port
  popStream64 device port

/-- The accesses and checks of an instruction in their order. -/
def troubles (host : Host) (machine : Machine) (arguments : Arguments) (mnemonic : Mnemonic) : List (Option Trouble) :=
  let registers := machine.registers
  let reads := arguments.reads machine
  let writes := arguments.writes machine
  let jump := [reads 0, reads 1]
  let jumpIf (condition : Bool) := if condition then jump else []
  let flag := getFlag registers.FlagRegister
  let count := registers.load FER3
  let bytes := (Width.ofBcd arguments.width).elim 0 Width.bytes
  match mnemonic with
  | .nop | .hlt | .igni | .alwi | .leave => []
  | .add | .adc | .sub | .sbb => [reads 0, reads 1, widthTrouble "Invalid operation width" arguments.width, writes 0]
  | .imul | .mul => [widthTrouble "Unknown width" arguments.width, reads 0]
  | .idiv =>
    [widthTrouble "Unknown width" arguments.width, reads 0,
      divisionTrouble host machine arguments fun width factor =>
        filledBase registers width == BitVec.intMin 64 && factor == -1]
  | .div =>
    [widthTrouble "Unknown width" arguments.width, reads 0, divisionTrouble host machine arguments fun _ _ => false]
  | .neg | .not => [reads 0, writes 0]
  | .cmp => [reads 0, reads 1]
  | .inc | .dec => [reads 0, widthTrouble "Invalid operation width" arguments.width, writes 0]
  | .and | .or | .xor | .shl | .shr => [reads 0, reads 1, writes 0]
  | .rol | .ror | .rcl | .rcr => [reads 0, reads 1, widthTrouble "Unknown width" arguments.width, writes 0]
  | .mov => [reads 1, writes 0]
  | .xchg => [reads 0, reads 1, writes 0, writes 1]
  | .push => [reads 0, widthTrouble "Unknown width" arguments.width, pushTrouble machine registers.StackPointer bytes]
  | .pop => [widthTrouble "Unknown width" arguments.width, popTrouble machine registers.StackPointer bytes, writes 0]
  | .pushall => [pushTrouble machine registers.StackPointer 192]
  | .popall => [popTrouble machine registers.StackPointer 192]
  | .enter => [reads 0]
  | .movs =>
    [allocationTrouble host count.toNat,
      transferTrouble machine (registers.ExtendedPointer + registers.ExtendedBase) count.toNat,
      transferTrouble machine (registers.DataPointer + registers.DataBase) count.toNat]
  | .lea => [arguments.check (fun _ => none) 1, writes 0]
  | .jmp => jump
  | .call =>
    [pushTrouble machine registers.StackPointer 8, pushTrouble machine (registers.StackPointer - 8) 8, reads 0, reads 1]
  | .ret => [popTrouble machine registers.StackPointer 8, popTrouble machine (registers.StackPointer + 8) 8]
  | .je => jumpIf (flag .equal)
  | .jne => jumpIf (!flag .equal)
  | .jb => jumpIf (flag .largerThan)
  | .jl => jumpIf (flag .lessThan)
  | .jbe => jumpIf (flag .equal || flag .largerThan)
  | .jle => jumpIf (flag .equal || flag .lessThan)
  | .jc | .jnc | .jo | .jno => [some (.other .outOfRange)]
  | .int => [reads 0, interruptionTrouble host machine (arguments.value machine 0)]
  | .int3 => [interruptionTrouble host machine 0x03]
  | .iret => [popTrouble machine registers.StackPointer 256]
  | .loop => jumpIf (count - 1 != 0)
  | .in_ => [reads 0, deviceTrouble (inRequest host (arguments.value machine 0)) machine, writes 1]
  | .out =>
    [reads 0, reads 1, deviceTrouble
      (hubOuts host (arguments.value machine 0) (LittleEndian.bytes 8 (arguments.value machine 1).toNat)) machine]
  | .ins =>
    [reads 0, deviceTrouble (insRequest host (arguments.value machine 0) count) machine,
      transferTrouble machine (registers.DataBase + registers.DataPointer) count.toNat]
  | .outs =>
    let address := registers.DataBase + registers.DataPointer
    [reads 0, allocationTrouble host count.toNat, transferTrouble machine address count.toNat,
      deviceTrouble (hubOuts host (arguments.value machine 0)
        (FlatMemory.read machine.memory.peek address.toNat count.toNat)) machine]

end Sysdarft
