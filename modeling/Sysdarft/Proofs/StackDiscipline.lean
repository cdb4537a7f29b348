import Sysdarft.Proofs.CallTarget
import Sysdarft.Proofs.Iret

/-! # The discipline of the stack

A frame is pushed below the top of the stack and popped again, with any code between that leaves the
stack registers, the frame and what lies above it alone. Frames nest to any depth. Every frame comes
back as it was pushed: a `pop` gets the value of its `push`, a `popall` the registers of its `pushall`
and a `ret` goes to the instruction behind its `call`.
-/

namespace Sysdarft

open Effects

/-- The address of the top of the stack. -/
def Machine.stackTop (machine : Machine) : ℕ :=
  (machine.registers.StackBase + machine.registers.StackPointer).toNat

/-- Below the top of the stack. -/
theorem Machine.stackTop_sub {machine : Machine} {size : Word} (room : size.toNat ≤ machine.stackTop) :
    (machine.registers.StackBase + (machine.registers.StackPointer - size)).toNat = machine.stackTop - size.toNat := by
  have split : machine.registers.StackBase + (machine.registers.StackPointer - size) =
      machine.registers.StackBase + machine.registers.StackPointer - size := by
    rw [BitVec.sub_eq_add_neg, BitVec.sub_eq_add_neg, BitVec.add_assoc]
  rw [split, BitVec.toNat_sub_of_le (BitVec.le_def.mpr room), Machine.stackTop]

/-- The stack registers, the size of memory and the bytes at some addresses are as before. -/
structure StackKept (kept : Set ℕ) (before after : Machine) : Prop where
  base : after.registers.StackBase = before.registers.StackBase
  pointer : after.registers.StackPointer = before.registers.StackPointer
  total : after.memory.total = before.memory.total
  bytes : Set.EqOn after.memory.peek before.memory.peek kept

/-- The preservation space of the procedure is as before as well. -/
structure ProcedureKept (kept : Set ℕ) (before after : Machine) : Prop extends StackKept kept before after where
  space : after.registers.CurrentProcedureStackPreservationSpace = before.registers.CurrentProcedureStackPreservationSpace

section Kept

variable {kept : Set ℕ} {first second third : Machine}

namespace StackKept

theorem trans (before : StackKept kept first second) (after : StackKept kept second third) : StackKept kept first third where
  base := after.base.trans before.base
  pointer := after.pointer.trans before.pointer
  total := after.total.trans before.total
  bytes := after.bytes.trans before.bytes

theorem top (same : StackKept kept first second) : second.stackTop = first.stackTop := by
  rw [Machine.stackTop, Machine.stackTop, same.base, same.pointer]

end StackKept

namespace ProcedureKept

theorem refl (kept : Set ℕ) (machine : Machine) : ProcedureKept kept machine machine :=
  ⟨⟨rfl, rfl, rfl, fun _ _ => rfl⟩, rfl⟩

theorem trans (before : ProcedureKept kept first second) (after : ProcedureKept kept second third) :
    ProcedureKept kept first third :=
  ⟨before.toStackKept.trans after.toStackKept, after.space.trans before.space⟩

/-- Fetching leaves the stack alone. -/
theorem of_core (same : second.core = first.core) (kept : Set ℕ) : ProcedureKept kept first second where
  base := congrArg (fun machine => machine.registers.StackBase) same
  pointer := congrArg (fun machine => machine.registers.StackPointer) same
  total := congrArg (fun machine => machine.memory.total) same
  bytes := by
    have memory : second.memory = first.memory := (Machine.registers_of_core same).2
    rw [memory]
    exact Set.eqOn_refl _ _
  space := congrArg (fun machine => machine.registers.CurrentProcedureStackPreservationSpace) same

end ProcedureKept

end Kept

/-! ## A frame on the stack -/

/-- A frame went onto the stack: the stack pointer is below it and memory is as before but for the frame. -/
structure Opened (data : List Byte) (machine inside : Machine) : Prop where
  base : inside.registers.StackBase = machine.registers.StackBase
  pointer : inside.registers.StackPointer = machine.registers.StackPointer - BitVec.ofNat 64 data.length
  space : inside.registers.CurrentProcedureStackPreservationSpace = machine.registers.CurrentProcedureStackPreservationSpace
  total : inside.memory.total = machine.memory.total
  room : inside.stackTop + data.length ≤ machine.memory.total
  bytes : inside.memory.peek = FlatMemory.write machine.memory.peek inside.stackTop data

/-- The addresses between the top of the stack of a machine and that of an earlier one. -/
def Machine.frameSince (inside machine : Machine) : Set ℕ := Set.Ico inside.stackTop machine.stackTop

namespace Opened

variable {data lower : List Byte} {kept : Set ℕ} {machine inside deeper last after : Machine}

/-- The frame ends where the stack began. -/
theorem top (opened : Opened data machine inside) : machine.stackTop = inside.stackTop + data.length := by
  have bound : machine.memory.total < 2 ^ 63 := machine.memory.addressable
  have room := opened.room
  have place : inside.stackTop =
      (machine.registers.StackBase + (machine.registers.StackPointer - BitVec.ofNat 64 data.length)).toNat := by
    rw [Machine.stackTop, opened.base, opened.pointer]
  have split : machine.registers.StackBase + machine.registers.StackPointer =
      machine.registers.StackBase + (machine.registers.StackPointer - BitVec.ofNat 64 data.length) +
        BitVec.ofNat 64 data.length := by
    rw [BitVec.add_assoc, BitVec.sub_add_cancel]
  rw [Machine.stackTop, split, BitVec.toNat_add, ← place, BitVec.toNat_ofNat]
  omega

theorem frame_eq (opened : Opened data machine inside) :
    inside.frameSince machine = Set.Ico inside.stackTop (inside.stackTop + data.length) := by
  rw [Machine.frameSince, opened.top]

/-- A frame that went onto the stack after a fetch. -/
theorem after_fetch {fetched : Machine} (opened : Opened data fetched inside) (core : fetched.core = machine.core) :
    Opened data machine inside := by
  have same := ProcedureKept.of_core core Set.univ
  refine ⟨opened.base.trans same.base, ?_, opened.space.trans same.space, opened.total.trans same.total, ?_, ?_⟩
  · rw [opened.pointer, same.pointer]
  · rw [← same.total]
    exact opened.room
  · rw [opened.bytes, (Set.eqOn_univ _ _).mp same.bytes]

/-- A frame below a frame. -/
theorem append (upper : Opened data machine inside) (opened : Opened lower inside deeper) :
    Opened (lower ++ data) machine deeper where
  base := opened.base.trans upper.base
  pointer := by
    rw [opened.pointer, upper.pointer, BitVec.sub_sub, List.length_append, Nat.add_comm, BitVec.ofNat_add]
  space := opened.space.trans upper.space
  total := opened.total.trans upper.total
  room := by
    have room := upper.room
    rw [List.length_append]
    rw [opened.top] at room
    omega
  bytes := by
    rw [opened.bytes, upper.bytes, opened.top, FlatMemory.write_append]
    exact FlatMemory.write_comm (.inr (le_refl _))

/-- What lies above the frame is not touched. -/
theorem above (opened : Opened data machine inside) (high : ∀ address ∈ kept, machine.stackTop ≤ address) :
    Set.EqOn inside.memory.peek machine.memory.peek kept := by
  intro address member
  rw [opened.bytes]
  apply FlatMemory.write_outside
  right
  rw [← opened.top]
  exact high address member

/-- The frame is still on top of the stack. -/
theorem read (opened : Opened data machine inside) (body : StackKept (kept ∪ inside.frameSince machine) inside last) :
    FlatMemory.read last.memory.peek last.stackTop data.length = data := by
  have same : FlatMemory.read last.memory.peek inside.stackTop data.length =
      FlatMemory.read inside.memory.peek inside.stackTop data.length := by
    apply FlatMemory.read_congr
    intro address low high
    apply body.bytes
    right
    rw [opened.frame_eq]
    exact ⟨low, high⟩
  rw [body.top, same, opened.bytes]
  exact FlatMemory.read_write

/-- The frame is taken from the stack again. -/
theorem closed (opened : Opened data machine inside) (body : StackKept (kept ∪ inside.frameSince machine) inside last)
    (high : ∀ address ∈ kept, machine.stackTop ≤ address) (base : after.registers.StackBase = machine.registers.StackBase)
    (pointer : after.registers.StackPointer = machine.registers.StackPointer)
    (space : after.registers.CurrentProcedureStackPreservationSpace =
      machine.registers.CurrentProcedureStackPreservationSpace)
    (memory : after.memory = last.memory) : ProcedureKept kept machine after where
  base := base
  pointer := pointer
  space := space
  total := by rw [memory, body.total, opened.total]
  bytes := by
    rw [memory]
    exact (body.bytes.mono Set.subset_union_left).trans (opened.above high)

/-- Behind the frame the stack pointer is that of before. -/
theorem pointer_behind (opened : Opened data machine inside) (body : StackKept kept inside last) :
    last.registers.StackPointer + BitVec.ofNat 64 data.length = machine.registers.StackPointer := by
  rw [body.pointer, opened.pointer, BitVec.sub_add_cancel]

end Opened

section Transfers

variable {data : List Byte} {kept : Set ℕ} {machine inside last : Machine} {size : ℕ}

/-- A push that succeeds puts its bytes on the stack. -/
theorem pushStack_opened (nonempty : 0 < data.length) (small : data.length < 2 ^ 63)
    (done : pushStack data machine = .ok () inside) : Opened data machine inside := by
  rcases pushStack_cases machine data nonempty small with ⟨room, pushed⟩ | ⟨-, failed⟩
  · rw [done] at pushed
    obtain rfl := (EStateM.Result.ok.inj pushed).2
    have fits : machine.HasRoom machine.registers.StackBase machine.registers.StackPointer data.length := by
      by_contra full
      rw [pushTrouble, if_neg full] at room
      cases room
    exact ⟨rfl, rfl, rfl, rfl, fits.2, GuestMemory.peek_overwrite _ fits.2⟩
  · rw [done] at failed
    cases failed

/-- A pop reads the bytes on top of the stack. -/
theorem popStack_inside (nonempty : 0 < size) (inside : machine.stackTop + size ≤ machine.memory.total) :
    popStack size machine = .ok (FlatMemory.read machine.memory.peek machine.stackTop size) (machine.popped size) := by
  have bound : machine.memory.total < 2 ^ 63 := machine.memory.addressable
  have count : (BitVec.ofNat 64 size).toNat = size := by
    rw [BitVec.toNat_ofNat, Nat.mod_eq_of_lt (by omega)]
  have read : readMemory (machine.registers.StackBase + machine.registers.StackPointer) (BitVec.ofNat 64 size) machine =
      .ok _ machine := readMemory_inside (by rw [count]; exact inside) (by rw [count]; exact nonempty)
  simp only [popStack, getRegisters, bind_apply, get_apply, pure_apply, asStackOverflow, tryCatch_apply, read,
    modifyRegisters, modify_apply, count]
  rfl

/-- A pop of a frame gets the frame. -/
theorem Opened.popStack (opened : Opened data machine inside) (nonempty : 0 < data.length)
    (body : StackKept (kept ∪ inside.frameSince machine) inside last) :
    Sysdarft.popStack data.length last = .ok data (last.popped data.length) := by
  have room : last.stackTop + data.length ≤ last.memory.total := by
    rw [body.top, body.total, opened.total]
    exact opened.room
  rw [popStack_inside nonempty room, opened.read body]

end Transfers

/-! ## Instructions on the stack -/

/-- The instruction at `CB:IP` is fetched and its procedure returns. -/
structure Completes (host : Host) (mnemonic : Mnemonic) (width : Byte) (operands : List Operand)
    (machine fetched after : Machine) : Prop where
  fetches : fetch machine = .ok { opcode := mnemonic.opcode, width := width, operands := operands } fetched
  runs : dispatch host { opcode := mnemonic.opcode, width := width, operands := operands } fetched = .ok () after

/-- A value cut to a width. -/
def Width.cut (width : Width) (value : Word) : Word := (value.setWidth width.bits).setWidth 64

section Instructions

variable {host : Host} {data : List Byte} {kept : Set ℕ} {machine fetched inside last after : Machine} {width : Byte}
  {size : Width} {operands : List Operand} {operand : Operand} {register : Register} {value : Word}

theorem Completes.executes {mnemonic : Mnemonic} (completes : Completes host mnemonic width operands machine fetched after) :
    execute host machine = .ok () after := execute_returns completes.fetches completes.runs

theorem push_opened (completes : Completes host .push size.bcd [operand] machine fetched inside)
    (reads : operand.reading machine = some value) :
    Opened (LittleEndian.bytes size.bytes value.toNat) machine inside := by
  have core := fetch_core completes.fetches
  have read : ({ width := size.bcd, operands := [operand] } : Arguments).getVal 0 fetched = .ok value fetched :=
    Operand.reading_eq_some.mp ((Operand.reading_congr (Machine.readable_of_core core) operand).trans reads)
  have length : (LittleEndian.bytes size.bytes value.toNat).length = size.bytes := LittleEndian.length_bytes ..
  have runs := completes.runs
  rw [dispatch_registered rfl, push, bind_ok read,
    bind_ok (operationWidth_known _ size.ofBcd_bcd fetched)] at runs
  refine Opened.after_fetch (pushStack_opened ?_ ?_ runs) core
  · rw [length]
    exact size.bytes_pos
  · rw [length]
    exact size.bytes_lt

/-- The stack registers are not a general register. -/
theorem Registers.store_stack (registers : Registers) (value : Word) (base : register ≠ .special .stackBase)
    (pointer : register ≠ .special .stackPointer) :
    (registers.store value register).StackBase = registers.StackBase ∧
      (registers.store value register).StackPointer = registers.StackPointer ∧
      (registers.store value register).CurrentProcedureStackPreservationSpace =
        registers.CurrentProcedureStackPreservationSpace := by
  cases register with
  | general width index => exact ⟨rfl, rfl, rfl⟩
  | special special =>
    cases special with
    | stackBase => exact absurd rfl base
    | stackPointer => exact absurd rfl pointer
    | _ => exact ⟨rfl, rfl, rfl⟩

theorem Opened.pop_runs (opened : Opened (LittleEndian.bytes size.bytes value.toNat) machine inside)
    (body : StackKept (kept ∪ inside.frameSince machine) inside last) :
    Sysdarft.pop { width := size.bcd, operands := [.ofRegister register] } last =
      .ok () { last.popped size.bytes with
        registers := (last.popped size.bytes).registers.store (size.cut value) register } := by
  have length : (LittleEndian.bytes size.bytes value.toNat).length = size.bytes := LittleEndian.length_bytes ..
  have popped := opened.popStack (by rw [length]; exact size.bytes_pos) body
  rw [length] at popped
  have cut : BitVec.ofNat 64 (LittleEndian.value (LittleEndian.bytes size.bytes value.toNat)) = size.cut value := by
    apply BitVec.eq_of_toNat_eq
    rw [LittleEndian.value_bytes, ← size.two_pow_bits, Width.cut, BitVec.toNat_setWidth, BitVec.toNat_setWidth,
      BitVec.toNat_ofNat]
  rw [Sysdarft.pop, bind_ok (operationWidth_known _ size.ofBcd_bcd last), bind_ok popped, cut]
  exact setVal_register register (size.cut value) _

/-- `POP` to another register gets what `PUSH` put on the stack. -/
theorem Opened.pop (opened : Opened (LittleEndian.bytes size.bytes value.toNat) machine inside)
    (body : ProcedureKept (kept ∪ inside.frameSince machine) inside last)
    (high : ∀ address ∈ kept, machine.stackTop ≤ address)
    (fetches : fetch last = .ok { opcode := Mnemonic.pop.opcode, width := size.bcd, operands := [.ofRegister register] }
      fetched)
    (base : register ≠ .special .stackBase) (pointer : register ≠ .special .stackPointer)
    (runs : execute host last = .ok () after) :
    ProcedureKept kept machine after ∧ after.registers.load register = register.width.cut (size.cut value) := by
  have body : ProcedureKept (kept ∪ inside.frameSince machine) inside fetched :=
    body.trans (ProcedureKept.of_core (fetch_core fetches) _)
  have length : (LittleEndian.bytes size.bytes value.toNat).length = size.bytes := LittleEndian.length_bytes ..
  have behind := opened.pointer_behind body.toStackKept
  rw [length] at behind
  have done : execute host last = .ok () { fetched.popped size.bytes with
      registers := (fetched.popped size.bytes).registers.store (size.cut value) register } := by
    apply execute_returns fetches
    rw [dispatch_registered rfl]
    exact opened.pop_runs body.toStackKept
  rw [runs] at done
  obtain rfl := (EStateM.Result.ok.inj done).2
  obtain ⟨stackBase, stackPointer, space⟩ :=
    Registers.store_stack (fetched.popped size.bytes).registers (size.cut value) base pointer
  refine ⟨opened.closed body.toStackKept high ?_ ?_ ?_ rfl, Registers.load_store ..⟩
  · exact stackBase.trans (body.base.trans opened.base)
  · exact stackPointer.trans behind
  · exact space.trans (body.space.trans opened.space)

/-! ## All registers -/

/-- The registers that `pushall` saves, over the others of another register file. -/
def Registers.savedOver (saved now : Registers) : Registers :=
  { saved with
    CodeBase := now.CodeBase
    InstructionPointer := now.InstructionPointer
    ProtectedModeRegisters := now.ProtectedModeRegisters }

/-- The words of a register file put it back. -/
theorem Registers.savedOver_wordAt (saved now : Registers) :
    { now with
      FullyExtendedRegister := fun index => LittleEndian.wordAt (LittleEndian.wordBytes (pushallData saved)) index
      FlagRegister := LittleEndian.wordAt (LittleEndian.wordBytes (pushallData saved)) 16
      StackBase := LittleEndian.wordAt (LittleEndian.wordBytes (pushallData saved)) 17
      StackPointer := LittleEndian.wordAt (LittleEndian.wordBytes (pushallData saved)) 18
      DataBase := LittleEndian.wordAt (LittleEndian.wordBytes (pushallData saved)) 19
      DataPointer := LittleEndian.wordAt (LittleEndian.wordBytes (pushallData saved)) 20
      ExtendedBase := LittleEndian.wordAt (LittleEndian.wordBytes (pushallData saved)) 21
      ExtendedPointer := LittleEndian.wordAt (LittleEndian.wordBytes (pushallData saved)) 22
      CurrentProcedureStackPreservationSpace := LittleEndian.wordAt (LittleEndian.wordBytes (pushallData saved)) 23 } =
      saved.savedOver now := by
  have word (index : ℕ) (inside : index < 24) :
      LittleEndian.wordAt (LittleEndian.wordBytes (pushallData saved)) index = (pushallData saved).get ⟨index, inside⟩ :=
    LittleEndian.wordAt_wordBytes (pushallData saved) index inside
  have full : (fun index : Fin 16 => LittleEndian.wordAt (LittleEndian.wordBytes (pushallData saved)) index) =
      saved.FullyExtendedRegister := by
    funext index
    rw [word index (by omega)]
    fin_cases index <;> rfl
  rw [full, word 16 (by decide), word 17 (by decide), word 18 (by decide), word 19 (by decide), word 20 (by decide),
    word 21 (by decide), word 22 (by decide), word 23 (by decide)]
  rfl

theorem pushall_opened (completes : Completes host .pushall width operands machine fetched inside) :
    Opened (LittleEndian.wordBytes (pushallData machine.registers)) machine inside := by
  have core := fetch_core completes.fetches
  have same : pushallData fetched.registers = pushallData machine.registers := by
    have registers := congrArg pushallData (Machine.registers_of_core core).1
    exact registers
  have length := length_pushallData machine.registers
  have runs := completes.runs
  rw [dispatch_registered rfl, pushall, bind_ok (show getRegisters fetched = .ok fetched.registers fetched from rfl),
    same] at runs
  refine Opened.after_fetch (pushStack_opened ?_ ?_ runs) core
  · rw [length]
    decide
  · rw [length]
    decide

theorem Opened.popall_runs (opened : Opened (LittleEndian.wordBytes (pushallData machine.registers)) machine inside)
    (body : StackKept (kept ∪ inside.frameSince machine) inside last) :
    Sysdarft.popall last =
      .ok () { last.popped 192 with registers := machine.registers.savedOver (last.popped 192).registers } := by
  have length := length_pushallData machine.registers
  have popped := opened.popStack (by rw [length]; decide) body
  rw [length] at popped
  rw [Sysdarft.popall, bind_ok popped, ← Registers.savedOver_wordAt]
  rfl

/-- `POPALL` puts the registers of `PUSHALL` back. -/
theorem Opened.popall (opened : Opened (LittleEndian.wordBytes (pushallData machine.registers)) machine inside)
    (body : StackKept (kept ∪ inside.frameSince machine) inside last) (high : ∀ address ∈ kept, machine.stackTop ≤ address)
    (reached : last.At .popall) (runs : execute host last = .ok () after) :
    ProcedureKept kept machine after ∧ after.registers = machine.registers.savedOver after.registers := by
  obtain ⟨fetched, core, same⟩ := execute_at host reached rfl
  have body : StackKept (kept ∪ inside.frameSince machine) inside fetched :=
    body.trans (ProcedureKept.of_core core _).toStackKept
  simp only [runs, guarded, tryCatch_apply, opened.popall_runs body] at same
  obtain rfl := (EStateM.Result.ok.inj same).2
  exact ⟨opened.closed body high rfl rfl rfl rfl, rfl⟩

/-! ## Space for a procedure -/

/-- `ENTER` moves the stack pointer by the value of its operand. -/
theorem enter_moves (completes : Completes host .enter width [operand] machine fetched after)
    (reads : operand.reading machine = some value) :
    after.registers.StackBase = machine.registers.StackBase ∧
      after.registers.StackPointer = machine.registers.StackPointer - value ∧
      after.registers.CurrentProcedureStackPreservationSpace = value ∧ after.memory = machine.memory := by
  have core := fetch_core completes.fetches
  have same := ProcedureKept.of_core core Set.univ
  have read : ({ width := width, operands := [operand] } : Arguments).getVal 0 fetched = .ok value fetched :=
    Operand.reading_eq_some.mp ((Operand.reading_congr (Machine.readable_of_core core) operand).trans reads)
  have runs := completes.runs
  rw [dispatch_registered rfl, enter, bind_ok read] at runs
  obtain rfl := (EStateM.Result.ok.inj runs).2
  exact ⟨same.base, congrArg (· - value) same.pointer, rfl, (Machine.registers_of_core core).2⟩

/-- `LEAVE` moves it back by the preservation space. -/
theorem leave_moves (reached : machine.At .leave) (runs : execute host machine = .ok () after) :
    after.registers.StackBase = machine.registers.StackBase ∧
      after.registers.StackPointer =
        machine.registers.StackPointer + machine.registers.CurrentProcedureStackPreservationSpace ∧
      after.memory = machine.memory := by
  obtain ⟨fetched, core, done⟩ := execute_at host reached rfl
  have same := ProcedureKept.of_core core Set.univ
  rw [runs] at done
  obtain rfl := (EStateM.Result.ok.inj done).2
  exact ⟨same.base, congrArg₂ (· + ·) same.pointer same.space, (Machine.registers_of_core core).2⟩

/-- What lies below the frame is given to the procedure and taken back. -/
theorem StackKept.space {entered left : Machine} (enters : Completes host .enter width [operand] inside fetched entered)
    (reads : operand.reading inside = some value) (body : ProcedureKept kept entered last) (reached : last.At .leave)
    (leaves : execute host last = .ok () left) : StackKept kept inside left := by
  obtain ⟨base, pointer, space, memory⟩ := enter_moves enters reads
  obtain ⟨base', pointer', memory'⟩ := leave_moves reached leaves
  refine ⟨base'.trans (body.base.trans base), ?_, ?_, ?_⟩
  · rw [pointer', body.pointer, body.space, pointer, space, BitVec.sub_add_cancel]
  · rw [memory', body.total, memory]
  · rw [memory', ← memory]
    exact body.bytes

theorem enter_top {entered : Machine} (enters : Completes host .enter width [operand] inside fetched entered)
    (reads : operand.reading inside = some value) (room : value.toNat ≤ inside.stackTop) :
    entered.stackTop = inside.stackTop - value.toNat := by
  obtain ⟨base, pointer, -, -⟩ := enter_moves enters reads
  rw [Machine.stackTop, base, pointer, Machine.stackTop_sub room]

/-! ## Calls -/

/-- The stack registers and memory. -/
def Machine.stack (machine : Machine) : Word × Word × Word × GuestMemory :=
  (machine.registers.StackBase, machine.registers.StackPointer,
    machine.registers.CurrentProcedureStackPreservationSpace, machine.memory)

theorem keeps_jmp (arguments : Arguments) : Keeps Machine.stack (jmp arguments) :=
  keeps_bind (keeps_argument arguments 0) fun _ => keeps_bind (keeps_argument arguments 1) fun _ => fun _ => rfl

theorem Opened.of_stack {moved : Machine} (opened : Opened data machine inside) (same : moved.stack = inside.stack) :
    Opened data machine moved := by
  simp only [Machine.stack, Prod.mk.injEq] at same
  obtain ⟨base, pointer, space, memory⟩ := same
  have top : moved.stackTop = inside.stackTop := by rw [Machine.stackTop, Machine.stackTop, base, pointer]
  constructor
  · exact base.trans opened.base
  · exact pointer.trans opened.pointer
  · exact space.trans opened.space
  · rw [memory, opened.total]
  · rw [top]
    exact opened.room
  · rw [memory, top, opened.bytes]

/-- `CALL` puts the code base and the instruction pointer behind it on the stack. -/
theorem call_opened (completes : Completes host .call width operands machine fetched inside) :
    Opened fetched.returnFrame machine inside := by
  have core := fetch_core completes.fetches
  have runs := completes.runs
  rw [dispatch_registered rfl, call, bind_ok (show getRegisters fetched = .ok fetched.registers fetched from rfl)] at runs
  obtain ⟨⟨⟩, first, pushed, runs⟩ := bind_eq_ok.mp runs
  obtain ⟨⟨⟩, second, pushed', runs⟩ := bind_eq_ok.mp runs
  have upper := pushStack_opened (by rw [length_word]; decide) (by rw [length_word]; decide) pushed
  have lower := pushStack_opened (by rw [length_word]; decide) (by rw [length_word]; decide) pushed'
  exact Opened.after_fetch ((upper.append lower).of_stack (keeps_ok (keeps_jmp _) runs)) core

theorem stackTop_popped {size : ℕ} (inside : machine.stackTop + size ≤ machine.memory.total) :
    (machine.popped size).stackTop = machine.stackTop + size := by
  have bound : machine.memory.total < 2 ^ 63 := machine.memory.addressable
  have place : (machine.popped size).registers.StackBase + (machine.popped size).registers.StackPointer =
      machine.registers.StackBase + machine.registers.StackPointer + BitVec.ofNat 64 size :=
    (BitVec.add_assoc ..).symm
  rw [Machine.stackTop, place, BitVec.toNat_add, BitVec.toNat_ofNat, ← Machine.stackTop]
  omega

/-- A word on top of the stack is popped. -/
theorem popWord_inside (inside : machine.stackTop + 8 ≤ machine.memory.total)
    (read : FlatMemory.read machine.memory.peek machine.stackTop 8 = LittleEndian.bytes 8 value.toNat) :
    popWord machine = .ok value (machine.popped 8) := by
  have word : BitVec.ofNat 64 (LittleEndian.value (LittleEndian.bytes 8 value.toNat)) = value := by
    rw [LittleEndian.value_bytes, Nat.mod_eq_of_lt (show value.toNat < 256 ^ 8 from value.isLt), BitVec.ofNat_toNat,
      BitVec.setWidth_eq]
  rw [popWord, bind_ok (popStack_inside (by decide) inside), read, word]
  rfl

theorem Opened.ret_runs (opened : Opened fetched.returnFrame machine inside)
    (body : StackKept (kept ∪ inside.frameSince machine) inside last) :
    Sysdarft.ret last = .ok () { (last.popped 8).popped 8 with
      registers := { ((last.popped 8).popped 8).registers with
        CodeBase := fetched.registers.CodeBase, InstructionPointer := fetched.registers.InstructionPointer } } := by
  have length := length_returnFrame fetched
  have room : last.stackTop + 16 ≤ last.memory.total := by
    rw [body.top, body.total, opened.total, ← length]
    exact opened.room
  have frame := opened.read body
  rw [length] at frame
  rw [show (16 : ℕ) = 8 + 8 from rfl, FlatMemory.read_add, Machine.returnFrame] at frame
  obtain ⟨ip, cb⟩ := List.append_inj frame (by rw [FlatMemory.length_read, length_word])
  have below : last.stackTop + 8 ≤ last.memory.total := by omega
  have first := popWord_inside below ip
  have second : popWord (last.popped 8) = .ok fetched.registers.CodeBase ((last.popped 8).popped 8) := by
    apply popWord_inside
    · rw [stackTop_popped below]
      exact room
    · rw [stackTop_popped below]
      exact cb
  exact (bind_ok first).trans (bind_ok second)

/-- `RET` goes on behind the `CALL`. -/
theorem Opened.ret (opened : Opened fetched.returnFrame machine inside)
    (body : ProcedureKept (kept ∪ inside.frameSince machine) inside last)
    (high : ∀ address ∈ kept, machine.stackTop ≤ address)
    (reached : last.At .ret) (runs : execute host last = .ok () after) :
    ProcedureKept kept machine after ∧ after.registers.CodeBase = fetched.registers.CodeBase ∧
      after.registers.InstructionPointer = fetched.registers.InstructionPointer := by
  obtain ⟨returning, core, same⟩ := execute_at host reached rfl
  have body : ProcedureKept (kept ∪ inside.frameSince machine) inside returning := body.trans (ProcedureKept.of_core core _)
  have behind := opened.pointer_behind body.toStackKept
  rw [length_returnFrame] at behind
  simp only [runs, guarded, tryCatch_apply, opened.ret_runs body.toStackKept] at same
  obtain rfl := (EStateM.Result.ok.inj same).2
  refine ⟨opened.closed body.toStackKept high (body.base.trans opened.base) ?_ (body.space.trans opened.space) rfl, rfl, rfl⟩
  calc returning.registers.StackPointer + BitVec.ofNat 64 8 + BitVec.ofNat 64 8 =
      returning.registers.StackPointer + BitVec.ofNat 64 16 := BitVec.add_assoc ..
    _ = machine.registers.StackPointer := behind

end Instructions

/-! ## Nested frames -/

/-- What a pair of instructions handed over. -/
inductive Receipt where
  /-- A `push` of a width and the register of its `pop`. -/
  | word (width : Width) (register : Register) (pushed received : Word)
  /-- The register files at a `pushall` and behind its `popall`. -/
  | all (saved restored : Registers)
  /-- The code base and the instruction pointer behind a `call` and behind its `ret`. -/
  | ret (expected actual : Word × Word)

/-- What was handed over is what there was. -/
def Receipt.Faithful : Receipt → Prop
  | word width register pushed received => received = register.width.cut (width.cut pushed)
  | all saved restored => restored = saved.savedOver restored
  | ret expected actual => actual = expected

/-- A run in which frames are pushed and popped in pairs. An own step may be anything that leaves the stack
registers and the kept bytes alone; inside a frame its bytes are kept as well. The space of a procedure
is not kept. -/
inductive Bracketed (host : Host) : Set ℕ → Machine → List Receipt → Machine → Prop where
  | done (kept : Set ℕ) (machine : Machine) : Bracketed host kept machine [] machine
  | own {kept : Set ℕ} {machine next final : Machine} {receipts : List Receipt}
      (runs : execute host machine = .ok () next) (leaves : ProcedureKept kept machine next)
      (rest : Bracketed host kept next receipts final) : Bracketed host kept machine receipts final
  | word {kept : Set ℕ} {machine fetched inside last popping after final : Machine} {receipts more : List Receipt}
      {width : Width} {operand : Operand} {value : Word} {register : Register}
      (push : Completes host .push width.bcd [operand] machine fetched inside) (reads : operand.reading machine = some value)
      (body : Bracketed host (kept ∪ inside.frameSince machine) inside receipts last)
      (pop : fetch last = .ok { opcode := Mnemonic.pop.opcode, width := width.bcd, operands := [.ofRegister register] }
        popping)
      (base : register ≠ .special .stackBase) (pointer : register ≠ .special .stackPointer)
      (runs : execute host last = .ok () after) (rest : Bracketed host kept after more final) :
      Bracketed host kept machine (.word width register value (after.registers.load register) :: receipts ++ more) final
  | all {kept : Set ℕ} {machine fetched inside last after final : Machine} {receipts more : List Receipt}
      {width : Byte} {operands : List Operand}
      (pushall : Completes host .pushall width operands machine fetched inside)
      (body : Bracketed host (kept ∪ inside.frameSince machine) inside receipts last) (popall : last.At .popall)
      (runs : execute host last = .ok () after) (rest : Bracketed host kept after more final) :
      Bracketed host kept machine (.all machine.registers after.registers :: receipts ++ more) final
  | procedure {kept : Set ℕ} {machine fetched inside reserving entered last left after final : Machine}
      {receipts more : List Receipt} {width width' : Byte} {operands : List Operand} {operand : Operand} {value : Word}
      (pushall : Completes host .pushall width operands machine fetched inside)
      (enter : Completes host .enter width' [operand] inside reserving entered) (reads : operand.reading inside = some value)
      (room : value.toNat ≤ inside.stackTop)
      (body : Bracketed host (kept ∪ inside.frameSince machine) entered receipts last) (leave : last.At .leave)
      (leaves : execute host last = .ok () left) (popall : left.At .popall)
      (runs : execute host left = .ok () after) (rest : Bracketed host kept after more final) :
      Bracketed host kept machine (.all machine.registers after.registers :: receipts ++ more) final
  | call {kept : Set ℕ} {machine fetched inside last after final : Machine} {receipts more : List Receipt}
      {width : Byte} {operands : List Operand}
      (call : Completes host .call width operands machine fetched inside)
      (body : Bracketed host (kept ∪ inside.frameSince machine) inside receipts last) (ret : last.At .ret)
      (runs : execute host last = .ok () after) (rest : Bracketed host kept after more final) :
      Bracketed host kept machine (.ret (fetched.registers.CodeBase, fetched.registers.InstructionPointer)
        (after.registers.CodeBase, after.registers.InstructionPointer) :: receipts ++ more) final

/-- One step of the machine leads to another. -/
def Executed (host : Host) (machine after : Machine) : Prop := execute host machine = .ok () after

/-- What a bracketed run is: a run of the machine that keeps the stack, and every pair of it is faithful. -/
structure Disciplined (host : Host) (kept : Set ℕ) (machine : Machine) (receipts : List Receipt) (final : Machine) :
    Prop where
  run : Relation.ReflTransGen (Executed host) machine final
  keeps : ProcedureKept kept machine final
  faithful : ∀ receipt ∈ receipts, receipt.Faithful

section Brackets

variable {host : Host} {kept : Set ℕ} {machine inside last after final : Machine} {receipts more : List Receipt}
    {receipt : Receipt}

theorem ProcedureKept.high (same : ProcedureKept kept machine after) (high : ∀ address ∈ kept, machine.stackTop ≤ address) :
    ∀ address ∈ kept, after.stackTop ≤ address := by
  rw [same.top]
  exact high

/-- Inside a frame its bytes lie above the stack as well. -/
theorem Opened.high {data : List Byte} (opened : Opened data machine inside)
    (high : ∀ address ∈ kept, machine.stackTop ≤ address) :
    ∀ address ∈ kept ∪ inside.frameSince machine, inside.stackTop ≤ address := by
  rintro address (member | member)
  · have top := opened.top
    have above := high address member
    omega
  · exact member.1

/-- A pair, the run inside it and the run behind it. -/
theorem Disciplined.pair (start : Relation.ReflTransGen (Executed host) machine inside)
    (body : Relation.ReflTransGen (Executed host) inside last) (handed : ∀ receipt ∈ receipts, receipt.Faithful)
    (end_ : Relation.ReflTransGen (Executed host) last after)
    (closes : ProcedureKept kept machine after)
    (faithful : receipt.Faithful) (rest : Disciplined host kept after more final) :
    Disciplined host kept machine (receipt :: receipts ++ more) final where
  run := ((start.trans body).trans end_).trans rest.run
  keeps := closes.trans rest.keeps
  faithful := by
    intro other member
    rw [List.cons_append, List.mem_cons, List.mem_append] at member
    rcases member with rfl | inner | outer
    · exact faithful
    · exact handed other inner
    · exact rest.faithful other outer

/-- Whatever is nested in a run of pairs, the stack is kept and every pair is faithful. -/
theorem bracketed_disciplined (run : Bracketed host kept machine receipts final)
    (high : ∀ address ∈ kept, machine.stackTop ≤ address) : Disciplined host kept machine receipts final := by
  induction run with
  | done kept machine => exact ⟨.refl, .refl kept machine, nofun⟩
  | own runs leaves _ ih =>
    have rest := ih (leaves.high high)
    exact ⟨.head runs rest.run, leaves.trans rest.keeps, rest.faithful⟩
  | word push reads _ pop base pointer runs _ inner outer =>
    have opened := push_opened push reads
    have body := inner (opened.high high)
    obtain ⟨closes, received⟩ := opened.pop body.keeps high pop base pointer runs
    exact .pair (.single push.executes) body.run body.faithful (.single runs) closes received (outer (closes.high high))
  | all pushall _ popall runs _ inner outer =>
    have opened := pushall_opened pushall
    have body := inner (opened.high high)
    obtain ⟨closes, restored⟩ := opened.popall body.keeps.toStackKept high popall runs
    exact .pair (.single pushall.executes) body.run body.faithful (.single runs) closes restored (outer (closes.high high))
  | procedure pushall enter reads room _ leave leaves popall runs _ inner outer =>
    have opened := pushall_opened pushall
    have lower := (enter_top enter reads room).trans_le (Nat.sub_le _ _)
    have body := inner fun address member => lower.trans (opened.high high address member)
    obtain ⟨closes, restored⟩ := opened.popall (.space enter reads body.keeps leave leaves) high popall runs
    exact .pair (.head pushall.executes (.single enter.executes)) body.run body.faithful (.head leaves (.single runs)) closes
      restored (outer (closes.high high))
  | call call _ ret runs _ inner outer =>
    have opened := call_opened call
    have body := inner (opened.high high)
    obtain ⟨closes, base, pointer⟩ := opened.ret body.keeps high ret runs
    exact .pair (.single call.executes) body.run body.faithful (.single runs) closes (Prod.ext base pointer)
      (outer (closes.high high))

end Brackets

/-! ## A program that saves its registers -/

/-- The instruction that a machine fetches. -/
def Machine.nextInstruction (machine : Machine) : Option ActiveInstruction :=
  match fetch machine with
  | .ok instruction _ => some instruction
  | .error _ _ => none

theorem Machine.fetch_of_next {machine : Machine} {instruction : ActiveInstruction}
    (next : machine.nextInstruction = some instruction) : fetch machine = .ok instruction (final (fetch machine)) := by
  rw [nextInstruction] at next
  cases fetched : fetch machine with
  | ok found after =>
    rw [fetched] at next
    rw [Option.some.inj next]
    rfl
  | error fault after =>
    rw [fetched] at next
    cases next

theorem completes_of_next {host : Host} {mnemonic : Mnemonic} {width : Byte} {operands : List Operand} {machine : Machine}
    (next : machine.nextInstruction = some { opcode := mnemonic.opcode, width := width, operands := operands })
    (returns : thrown (dispatch host { opcode := mnemonic.opcode, width := width, operands := operands }
      (final (fetch machine))) = none) :
    Completes host mnemonic width operands machine (final (fetch machine)) (final (execute host machine)) := by
  obtain ⟨⟨⟩, after, done⟩ := thrown_eq_none returns
  have fetched := Machine.fetch_of_next next
  refine ⟨fetched, ?_⟩
  rw [execute_returns fetched done]
  exact done

/-- `PUSHALL`, `PUSH .64bit <%FER0>`, `POP .64bit <%FER1>` and `POPALL` where a machine with a stack starts. -/
def Machine.saving : Machine :=
  Machine.withStack.overwrite BIOS_START
    [Mnemonic.pushall.opcode, Mnemonic.push.opcode, 0x64, REGISTER_CODE, 0x64, 0x00, Mnemonic.pop.opcode, 0x64,
      REGISTER_CODE, 0x64, 0x01, Mnemonic.popall.opcode]

/-- The machine after so many of its instructions. -/
def Machine.saved : ℕ → Machine
  | 0 => Machine.saving
  | count + 1 => final (execute Host.ample (Machine.saved count))

/-- The instructions run, both frames are popped, and `%FER1` is as before. -/
theorem bracketed_disciplined_saving :
    Disciplined Host.ample (Set.Ici Machine.saving.stackTop) Machine.saving
      [.all Machine.saving.registers (Machine.saved 4).registers,
        .word .w64 (registerOf .w64 1) 0 ((Machine.saved 3).registers.load (registerOf .w64 1))] (Machine.saved 4) := by
  have pushall : Completes Host.ample .pushall 0 [] (Machine.saved 0) _ (Machine.saved 1) :=
    completes_of_next (by decide +kernel) (by decide +kernel)
  have push :
      Completes Host.ample .push Width.w64.bcd [.ofRegister (registerOf .w64 0)] (Machine.saved 1) _ (Machine.saved 2) :=
    completes_of_next (by decide +kernel) (by decide +kernel)
  have pop :
      Completes Host.ample .pop Width.w64.bcd [.ofRegister (registerOf .w64 1)] (Machine.saved 2) _ (Machine.saved 3) :=
    completes_of_next (by decide +kernel) (by decide +kernel)
  have popall : Completes Host.ample .popall 0 [] (Machine.saved 3) _ (Machine.saved 4) :=
    completes_of_next (by decide +kernel) (by decide +kernel)
  have zero : (Operand.ofRegister (registerOf .w64 0)).reading (Machine.saved 1) = some 0 := by decide +kernel
  have word (kept : Set ℕ) : Bracketed Host.ample kept (Machine.saved 1) _ (Machine.saved 3) :=
    .word push zero (.done _ _) pop.fetches (by decide) (by decide) pop.executes (.done _ _)
  exact bracketed_disciplined (.all pushall (word _) ⟨_, popall.fetches⟩ popall.executes (.done _ _)) fun _ member => member

end Sysdarft
