import Sysdarft.Proofs.StackDiscipline

/-! # Instruction sequences with room on the stack

The instructions of a bracketed sequence are given by what is fetched, and the room by the deepest point of the stack.
No instruction of such a sequence is interrupted, and it hands over what the brackets promise. A `popall` puts every
register back but the code base and the instruction pointer.
-/

namespace Sysdarft

open Effects

/-! ## Room -/

/-- So many bytes below the top of the stack are in memory and can be pushed. -/
structure Machine.StackRoom (machine : Machine) (size : ℕ) : Prop where
  pointer : size ≤ machine.registers.StackPointer.toNat
  place : size ≤ machine.stackTop
  total : machine.stackTop ≤ machine.memory.total

section Room

variable {machine inside after fetched : Machine} {size depth : ℕ} {data : List Byte} {kept : Set ℕ}

namespace Machine.StackRoom

theorem mono (room : machine.StackRoom depth) (smaller : size ≤ depth) : machine.StackRoom size :=
  ⟨smaller.trans room.pointer, smaller.trans room.place, room.total⟩

theorem of_kept (room : machine.StackRoom size) (same : StackKept kept machine after) : after.StackRoom size where
  pointer := by
    rw [same.pointer]
    exact room.pointer
  place := by
    rw [same.top]
    exact room.place
  total := by
    rw [same.top, same.total]
    exact room.total

theorem of_core (room : machine.StackRoom size) (core : fetched.core = machine.core) : fetched.StackRoom size :=
  room.of_kept (ProcedureKept.of_core core ∅).toStackKept

/-- The bytes can be pushed. -/
theorem hasRoom (room : machine.StackRoom size) :
    machine.HasRoom machine.registers.StackBase machine.registers.StackPointer size := by
  have bound : machine.memory.total < 2 ^ 63 := machine.memory.addressable
  have place := room.place
  have total := room.total
  have small : (BitVec.ofNat 64 size).toNat = size := by
    rw [BitVec.toNat_ofNat, Nat.mod_eq_of_lt (by omega)]
  refine ⟨room.pointer, ?_⟩
  rw [Machine.stackTop_sub (by rw [small]; exact place), small]
  omega

/-- Below a frame there is room for the rest. -/
theorem opened (room : machine.StackRoom (data.length + size)) (opened : Opened data machine inside) :
    inside.StackRoom size := by
  have bound : machine.memory.total < 2 ^ 63 := machine.memory.addressable
  have top := opened.top
  have pointer := room.pointer
  have place := room.place
  have total := room.total
  have small : (BitVec.ofNat 64 data.length).toNat = data.length := by
    rw [BitVec.toNat_ofNat, Nat.mod_eq_of_lt (by omega)]
  refine ⟨?_, by omega, by rw [opened.total]; omega⟩
  rw [opened.pointer, BitVec.toNat_sub_of_le (BitVec.le_def.mpr (by rw [small]; omega)), small]
  omega

end Machine.StackRoom

/-- A push with room succeeds. -/
theorem pushStack_room (room : machine.StackRoom data.length) (nonempty : 0 < data.length) :
    pushStack data machine = .ok () (machine.pushed data) := by
  have bound : machine.memory.total < 2 ^ 63 := machine.memory.addressable
  have place := room.place
  have total := room.total
  rcases pushStack_cases machine data nonempty (by omega) with ⟨-, pushed⟩ | ⟨full, -⟩
  · exact pushed
  · rw [pushTrouble, if_pos room.hasRoom] at full
    cases full

end Room

/-! ## The protected mode words -/

/-- The words that no instruction of a sequence touches. -/
def Machine.protected (machine : Machine) : Fin 6 → Word := machine.registers.ProtectedModeRegisters

theorem Registers.store_protected (registers : Registers) (value : Word) (register : Register) :
    (registers.store value register).ProtectedModeRegisters = registers.ProtectedModeRegisters := by
  cases register with
  | general width index => rfl
  | special special => cases special <;> rfl

theorem keeps_protected_pushStack (data : List Byte) : Keeps Machine.protected (pushStack data) := by
  refine keeps_bind keeps_getRegisters fun registers => keeps_ite (keeps_throw _) ?_
  refine keeps_bind (keeps_asStackOverflow ?_) fun _ => keeps_modify fun _ => rfl
  exact keeps_part (keeps_registers_writeMemory _ _ _) Registers.ProtectedModeRegisters

theorem keeps_protected_popStack (size : ℕ) : Keeps Machine.protected (popStack size) :=
  keeps_bind keeps_getRegisters fun _ => keeps_bind (keeps_asStackOverflow (keeps_readMemory _ _)) fun _ =>
    keeps_bind (keeps_modify fun _ => rfl) fun _ => keeps_pure _

theorem keeps_protected_setVal (register : Register) (value : Word) :
    Keeps Machine.protected ((Operand.ofRegister register).setVal value) := by
  intro machine
  rw [setVal_register]
  exact Registers.store_protected ..

theorem keeps_protected_popWord : Keeps Machine.protected popWord :=
  keeps_bind (keeps_protected_popStack 8) fun _ => keeps_pure _

theorem keeps_protected_jmp (arguments : Arguments) : Keeps Machine.protected (jmp arguments) :=
  keeps_bind (keeps_argument arguments 0) fun _ => keeps_bind (keeps_argument arguments 1) fun _ => fun _ => rfl

theorem keeps_protected_push (arguments : Arguments) : Keeps Machine.protected (push arguments) :=
  keeps_bind (keeps_argument arguments 0) fun _ => keeps_bind (keeps_operationWidth _ _) fun _ =>
    keeps_protected_pushStack _

theorem keeps_protected_pop (width : Byte) (register : Register) :
    Keeps Machine.protected (pop { width := width, operands := [.ofRegister register] }) :=
  keeps_bind (keeps_operationWidth _ _) fun _ => keeps_bind (keeps_protected_popStack _) fun _ =>
    keeps_protected_setVal register _

theorem keeps_protected_pushall : Keeps Machine.protected pushall :=
  keeps_bind keeps_getRegisters fun _ => keeps_protected_pushStack _

theorem keeps_protected_popall : Keeps Machine.protected popall :=
  keeps_bind (keeps_protected_popStack _) fun _ => keeps_modify fun _ => rfl

theorem keeps_protected_enter (arguments : Arguments) : Keeps Machine.protected (enter arguments) :=
  keeps_bind (keeps_argument arguments 0) fun _ => keeps_modify fun _ => rfl

theorem keeps_protected_call (arguments : Arguments) : Keeps Machine.protected (call arguments) :=
  keeps_bind keeps_getRegisters fun _ => keeps_bind (keeps_protected_pushStack _) fun _ =>
    keeps_bind (keeps_protected_pushStack _) fun _ => keeps_protected_jmp arguments

theorem keeps_protected_ret : Keeps Machine.protected ret :=
  keeps_bind keeps_protected_popWord fun _ => keeps_bind keeps_protected_popWord fun _ => fun _ => rfl

section Completion

variable {host : Host} {mnemonic : Mnemonic} {width : Byte} {operands : List Operand}
  {machine fetched inside last after : Machine} {procedure : Arguments → CPU Unit}

theorem Completes.protected (completes : Completes host mnemonic width operands machine fetched after)
    (registered : executorMap host mnemonic = some procedure)
    (keeps : Keeps Machine.protected (procedure { width := width, operands := operands })) :
    after.protected = machine.protected := by
  have runs := completes.runs
  rw [dispatch_registered registered] at runs
  have core := congrArg (fun machine => machine.registers.ProtectedModeRegisters) (fetch_core completes.fetches)
  exact (keeps_ok keeps runs).trans core

end Completion

/-! ## Instructions that complete -/

/-- The machine after its next instruction. -/
def Machine.next (host : Host) (machine : Machine) : Machine := final (execute host machine)

section Completions

variable {data : List Byte} {kept : Set ℕ} {machine fetched inside last after : Machine} {width : Byte}
  {size : Width} {operand base ip : Operand} {register : Register} {value target address : Word} {depth : ℕ}

theorem completes_registered {host : Host} {mnemonic : Mnemonic} {operands : List Operand}
    {procedure : Arguments → CPU Unit}
    (fetches : fetch machine = .ok { opcode := mnemonic.opcode, width := width, operands := operands } fetched)
    (registered : executorMap host mnemonic = some procedure)
    (done : procedure { width := width, operands := operands } fetched = .ok () after) :
    Completes host mnemonic width operands machine fetched (machine.next host) := by
  have runs : dispatch host { opcode := mnemonic.opcode, width := width, operands := operands } fetched = .ok () after := by
    rw [dispatch_registered registered, done]
  have next : machine.next host = after := by
    rw [Machine.next, execute_returns fetches runs]
    rfl
  exact ⟨fetches, next ▸ runs⟩

/-- Below the space of a procedure there is room for the rest. -/
theorem Machine.StackRoom.entered {host : Host} (room : machine.StackRoom (value.toNat + depth))
    (enters : Completes host .enter width [operand] machine fetched inside) (reads : operand.reading machine = some value) :
    inside.StackRoom depth := by
  obtain ⟨base, pointer, -, memory⟩ := enter_moves enters reads
  have below := room.pointer
  have place := room.place
  have total := room.total
  have top := enter_top enters reads ((Nat.le_add_right _ _).trans place)
  refine ⟨?_, by omega, by rw [memory]; omega⟩
  rw [pointer, BitVec.toNat_sub_of_le (BitVec.le_def.mpr ((Nat.le_add_right _ _).trans below))]
  omega

variable (host : Host)

theorem push_completes
    (fetches : fetch machine = .ok { opcode := Mnemonic.push.opcode, width := size.bcd, operands := [operand] } fetched)
    (reads : operand.reading machine = some value) (room : machine.StackRoom (size.bytes + depth)) :
    Completes host .push size.bcd [operand] machine fetched (machine.next host) := by
  have core := fetch_core fetches
  have read : ({ width := size.bcd, operands := [operand] } : Arguments).getVal 0 fetched = .ok value fetched :=
    Operand.reading_eq_some.mp ((Operand.reading_congr (Machine.readable_of_core core) operand).trans reads)
  have length : (LittleEndian.bytes size.bytes value.toNat).length = size.bytes := LittleEndian.length_bytes ..
  have fits : fetched.StackRoom (LittleEndian.bytes size.bytes value.toNat).length := by
    rw [length]
    exact (room.of_core core).mono (Nat.le_add_right _ _)
  have done : push { width := size.bcd, operands := [operand] } fetched =
      .ok () (fetched.pushed (LittleEndian.bytes size.bytes value.toNat)) := by
    rw [push, bind_ok read, bind_ok (operationWidth_known _ size.ofBcd_bcd fetched)]
    exact pushStack_room fits (by rw [length]; exact size.bytes_pos)
  exact completes_registered fetches rfl done

theorem pushall_completes (reached : machine.At .pushall) (room : machine.StackRoom (192 + depth)) :
    ∃ fetched, Completes host .pushall 0 [] machine fetched (machine.next host) := by
  obtain ⟨fetched, fetches⟩ := reached
  have length := length_pushallData fetched.registers
  have fits : fetched.StackRoom (LittleEndian.wordBytes (pushallData fetched.registers)).length := by
    rw [length]
    exact (room.of_core (fetch_core fetches)).mono (Nat.le_add_right _ _)
  have pushed := pushStack_room fits (by rw [length]; decide)
  have done := bind_ok (f := fun registers => pushStack (LittleEndian.wordBytes (pushallData registers)))
    (show getRegisters fetched = .ok fetched.registers fetched from rfl)
  exact ⟨fetched, completes_registered fetches rfl (done.trans pushed)⟩

theorem enter_completes
    (fetches : fetch machine = .ok { opcode := Mnemonic.enter.opcode, width := width, operands := [operand] } fetched)
    (reads : operand.reading machine = some value) :
    Completes host .enter width [operand] machine fetched (machine.next host) := by
  have core := fetch_core fetches
  have read : ({ width := width, operands := [operand] } : Arguments).getVal 0 fetched = .ok value fetched :=
    Operand.reading_eq_some.mp ((Operand.reading_congr (Machine.readable_of_core core) operand).trans reads)
  have done := bind_ok (f := fun operand1 => modifyRegisters fun registers =>
    { registers with
      CurrentProcedureStackPreservationSpace := operand1, StackPointer := registers.StackPointer - operand1 }) read
  exact completes_registered fetches rfl done

theorem leave_completes (reached : machine.At .leave) :
    ∃ fetched, Completes host .leave 0 [] machine fetched (machine.next host) := by
  obtain ⟨fetched, fetches⟩ := reached
  exact ⟨fetched, completes_registered fetches rfl rfl⟩

/-- The target is read behind the pushes. -/
theorem call_completes
    (fetches : fetch machine = .ok { opcode := Mnemonic.call.opcode, width := width, operands := [base, ip] } fetched)
    (targetBase : base.reading fetched.framed = some target) (targetIp : ip.reading fetched.framed = some address)
    (room : machine.StackRoom (16 + depth)) :
    Completes host .call width [base, ip] machine fetched (machine.next host) := by
  have fits : fetched.HasFrameRoom := ((room.of_core (fetch_core fetches)).mono (Nat.le_add_right _ _)).hasRoom
  obtain ⟨first, second⟩ := Machine.framed_pushes fits
  have read (index : ℕ) (operand : Operand) (value : Word) (here : [base, ip][index]? = some operand)
      (reads : operand.reading fetched.framed = some value) :
      ({ width := width, operands := [base, ip] } : Arguments).getVal index fetched.framed = .ok value fetched.framed := by
    simp only [Arguments.getVal, Arguments.operand, here]
    exact Operand.reading_eq_some.mp reads
  have jumped : jmp { width := width, operands := [base, ip] } fetched.framed =
      setCodeAddress target address fetched.framed := by
    rw [jmp, bind_ok (read 0 base target rfl targetBase), bind_ok (read 1 ip address rfl targetIp)]
  refine completes_registered fetches rfl (Eq.trans ?_ jumped)
  rw [call, bind_ok (show getRegisters fetched = .ok fetched.registers fetched from rfl), bind_ok first, bind_ok second]

theorem Opened.pop_completes (opened : Opened (LittleEndian.bytes size.bytes value.toNat) machine inside)
    (body : StackKept (kept ∪ inside.frameSince machine) inside last)
    (fetches : fetch last = .ok { opcode := Mnemonic.pop.opcode, width := size.bcd, operands := [.ofRegister register] }
      fetched) :
    Completes host .pop size.bcd [.ofRegister register] last fetched (last.next host) :=
  completes_registered fetches rfl
    (opened.pop_runs (body.trans (ProcedureKept.of_core (fetch_core fetches) _).toStackKept))

theorem Opened.popall_completes (opened : Opened (LittleEndian.wordBytes (pushallData machine.registers)) machine inside)
    (body : StackKept (kept ∪ inside.frameSince machine) inside last) (reached : last.At .popall) :
    ∃ fetched, Completes host .popall 0 [] last fetched (last.next host) := by
  obtain ⟨fetched, fetches⟩ := reached
  have body := body.trans (ProcedureKept.of_core (fetch_core fetches) (kept ∪ inside.frameSince machine)).toStackKept
  exact ⟨fetched, completes_registered fetches rfl (opened.popall_runs body)⟩

theorem Opened.ret_completes (opened : Opened fetched.returnFrame machine inside)
    (body : StackKept (kept ∪ inside.frameSince machine) inside last) (reached : last.At .ret) :
    ∃ returning, Completes host .ret 0 [] last returning (last.next host) := by
  obtain ⟨returning, fetches⟩ := reached
  have body := body.trans (ProcedureKept.of_core (fetch_core fetches) (kept ∪ inside.frameSince machine)).toStackKept
  exact ⟨returning, completes_registered fetches rfl (opened.ret_runs body)⟩

end Completions

/-! ## Sequences -/

/-- A bracketed sequence of instructions, the bytes of the stack that it needs and what its pairs hand over. An own
instruction leaves the stack registers, the kept bytes and the protected mode words alone; inside a frame the bytes of
the frame are kept as well. -/
inductive Sequence (host : Host) : Set ℕ → ℕ → Machine → List Receipt → Machine → Prop where
  | empty (kept : Set ℕ) (machine : Machine) : Sequence host kept 0 machine [] machine
  | own {kept : Set ℕ} {machine next : Machine} (runs : execute host machine = .ok () next)
      (leaves : ProcedureKept kept machine next) (words : next.protected = machine.protected) :
      Sequence host kept 0 machine [] next
  | append {kept : Set ℕ} {depth depth' : ℕ} {machine middle final : Machine} {receipts more : List Receipt}
      (first : Sequence host kept depth machine receipts middle) (second : Sequence host kept depth' middle more final) :
      Sequence host kept (max depth depth') machine (receipts ++ more) final
  | word {kept : Set ℕ} {depth : ℕ} {machine fetched last popping : Machine} {receipts : List Receipt} {width : Width}
      {operand : Operand} {value : Word} {register : Register}
      (push : fetch machine = .ok { opcode := Mnemonic.push.opcode, width := width.bcd, operands := [operand] } fetched)
      (reads : operand.reading machine = some value)
      (body : Sequence host (kept ∪ (machine.next host).frameSince machine) depth (machine.next host) receipts last)
      (pop : fetch last = .ok { opcode := Mnemonic.pop.opcode, width := width.bcd, operands := [.ofRegister register] }
        popping)
      (base : register ≠ .special .stackBase) (pointer : register ≠ .special .stackPointer) :
      Sequence host kept (width.bytes + depth) machine
        (.word width register value ((last.next host).registers.load register) :: receipts) (last.next host)
  | all {kept : Set ℕ} {depth : ℕ} {machine last : Machine} {receipts : List Receipt} (pushall : machine.At .pushall)
      (body : Sequence host (kept ∪ (machine.next host).frameSince machine) depth (machine.next host) receipts last)
      (popall : last.At .popall) :
      Sequence host kept (192 + depth) machine (.all machine.registers (last.next host).registers :: receipts)
        (last.next host)
  | procedure {kept : Set ℕ} {depth : ℕ} {machine reserving last : Machine} {receipts : List Receipt} {width : Byte}
      {operand : Operand} {value : Word} (pushall : machine.At .pushall)
      (enter : fetch (machine.next host) = .ok { opcode := Mnemonic.enter.opcode, width := width, operands := [operand] }
        reserving)
      (reads : operand.reading (machine.next host) = some value)
      (body : Sequence host (kept ∪ (machine.next host).frameSince machine) depth ((machine.next host).next host) receipts
        last)
      (leave : last.At .leave) (popall : (last.next host).At .popall) :
      Sequence host kept (192 + (value.toNat + depth)) machine
        (.all machine.registers ((last.next host).next host).registers :: receipts) ((last.next host).next host)
  | call {kept : Set ℕ} {depth : ℕ} {machine fetched last : Machine} {receipts : List Receipt} {width : Byte}
      {base ip : Operand} {target address : Word}
      (call : fetch machine = .ok { opcode := Mnemonic.call.opcode, width := width, operands := [base, ip] } fetched)
      (targetBase : base.reading fetched.framed = some target) (targetIp : ip.reading fetched.framed = some address)
      (body : Sequence host (kept ∪ (machine.next host).frameSince machine) depth (machine.next host) receipts last)
      (ret : last.At .ret) :
      Sequence host kept (16 + depth) machine (.ret (fetched.registers.CodeBase, fetched.registers.InstructionPointer)
        ((last.next host).registers.CodeBase, (last.next host).registers.InstructionPointer) :: receipts) (last.next host)

/-- A `popall` hands over every register but the code base and the instruction pointer. -/
def Receipt.Exact : Receipt → Prop
  | word width register pushed received => received = register.width.cut (width.cut pushed)
  | all saved restored =>
    restored = { saved with CodeBase := restored.CodeBase, InstructionPointer := restored.InstructionPointer }
  | ret expected actual => actual = expected

theorem Receipt.Faithful.exact {saved restored : Registers} (faithful : (Receipt.all saved restored).Faithful)
    (words : restored.ProtectedModeRegisters = saved.ProtectedModeRegisters) : (Receipt.all saved restored).Exact := by
  have same : restored = saved.savedOver restored := faithful
  rw [Registers.savedOver, words] at same
  exact same

/-- What a sequence does. -/
structure Restores (host : Host) (kept : Set ℕ) (machine : Machine) (receipts : List Receipt) (final : Machine) : Prop where
  run : Relation.ReflTransGen (Executed host) machine final
  keeps : ProcedureKept kept machine final
  words : final.protected = machine.protected
  exact : ∀ receipt ∈ receipts, receipt.Exact

section Sequences

variable {host : Host} {kept inner : Set ℕ} {depth : ℕ} {machine inside last after middle final : Machine}
  {receipts more : List Receipt} {receipt : Receipt}

theorem Restores.append (first : Restores host kept machine receipts middle)
    (second : Restores host kept middle more final) : Restores host kept machine (receipts ++ more) final where
  run := first.run.trans second.run
  keeps := first.keeps.trans second.keeps
  words := second.words.trans first.words
  exact := fun receipt member => (List.mem_append.mp member).elim (first.exact receipt) (second.exact receipt)

/-- A pair around a sequence. -/
theorem Restores.pair (start : Relation.ReflTransGen (Executed host) machine inside)
    (opens : inside.protected = machine.protected) (body : Restores host inner inside receipts last)
    (end_ : Relation.ReflTransGen (Executed host) last after) (closes : after.protected = last.protected)
    (keeps : ProcedureKept kept machine after) (exact : receipt.Exact) :
    Restores host kept machine (receipt :: receipts) after where
  run := (start.trans body.run).trans end_
  keeps := keeps
  words := (closes.trans body.words).trans opens
  exact := List.forall_mem_cons.mpr ⟨exact, body.exact⟩

theorem Sequence.restores (sequence : Sequence host kept depth machine receipts final)
    (high : ∀ address ∈ kept, machine.stackTop ≤ address) (room : machine.StackRoom depth) :
    Restores host kept machine receipts final := by
  induction sequence with
  | empty kept machine => exact ⟨.refl, .refl kept machine, rfl, List.forall_mem_nil _⟩
  | own runs leaves words => exact ⟨.single runs, leaves, words, List.forall_mem_nil _⟩
  | append _ _ first second =>
    have start := first high (room.mono (le_max_left _ _))
    exact start.append (second (start.keeps.high high) ((room.mono (le_max_right _ _)).of_kept start.keeps.toStackKept))
  | word push reads _ pop base pointer inner =>
    have pushes := push_completes host push reads room
    have opened := push_opened pushes reads
    have body := inner (opened.high high) (.opened (by rw [LittleEndian.length_bytes]; exact room) opened)
    have pops := opened.pop_completes host body.keeps.toStackKept pop
    obtain ⟨closes, received⟩ := opened.pop body.keeps high pop base pointer pops.executes
    exact .pair (.single pushes.executes) (pushes.protected rfl (keeps_protected_push _)) body (.single pops.executes)
      (pops.protected rfl (keeps_protected_pop _ _)) closes received
  | all pushall _ popall inner =>
    obtain ⟨_, pushes⟩ := pushall_completes host pushall room
    have opened := pushall_opened pushes
    have body := inner (opened.high high) (.opened (by rw [length_pushallData]; exact room) opened)
    obtain ⟨_, pops⟩ := opened.popall_completes host body.keeps.toStackKept popall
    obtain ⟨closes, restored⟩ := opened.popall body.keeps.toStackKept high popall pops.executes
    have opens := pushes.protected rfl keeps_protected_pushall
    have shuts := pops.protected rfl keeps_protected_popall
    exact .pair (.single pushes.executes) opens body (.single pops.executes) shuts closes
      (Receipt.Faithful.exact restored (shuts.trans (body.words.trans opens)))
  | procedure pushall enter reads _ leave popall inner =>
    obtain ⟨_, pushes⟩ := pushall_completes host pushall room
    have opened := pushall_opened pushes
    have below : Machine.StackRoom _ _ := .opened (by rw [length_pushallData]; exact room) opened
    have enters := enter_completes host enter reads
    have lower := (enter_top enters reads ((Nat.le_add_right _ _).trans below.place)).trans_le (Nat.sub_le _ _)
    have body := inner (fun address member => lower.trans (opened.high high address member)) (below.entered enters reads)
    obtain ⟨_, leaves⟩ := leave_completes host leave
    have framed := StackKept.space enters reads body.keeps leave leaves.executes
    obtain ⟨_, pops⟩ := opened.popall_completes host framed popall
    obtain ⟨closes, restored⟩ := opened.popall framed high popall pops.executes
    have opens := (enters.protected rfl (keeps_protected_enter _)).trans (pushes.protected rfl keeps_protected_pushall)
    have shuts := (pops.protected rfl keeps_protected_popall).trans (leaves.protected rfl (keeps_modify fun _ => rfl))
    exact .pair (.head pushes.executes (.single enters.executes)) opens body (.head leaves.executes (.single pops.executes))
      shuts closes (Receipt.Faithful.exact restored (shuts.trans (body.words.trans opens)))
  | call call targetBase targetIp _ ret inner =>
    have calls := call_completes host call targetBase targetIp room
    have opened := call_opened calls
    have body := inner (opened.high high) (.opened (by rw [length_returnFrame]; exact room) opened)
    obtain ⟨_, returns⟩ := opened.ret_completes host body.keeps.toStackKept ret
    obtain ⟨closes, base, pointer⟩ := opened.ret body.keeps high ret returns.executes
    exact .pair (.single calls.executes) (calls.protected rfl (keeps_protected_call _)) body (.single returns.executes)
      (returns.protected rfl keeps_protected_ret) closes (Prod.ext base pointer)

/-- With room for its deepest point a bracketed sequence runs to its end; the stack registers and what lies at or above
the top of the stack are as before, and every pair hands over what there was. -/
theorem sequence_restores (sequence : Sequence host (Set.Ici machine.stackTop) depth machine receipts final)
    (room : machine.StackRoom depth) : Restores host (Set.Ici machine.stackTop) machine receipts final :=
  sequence.restores (fun _ above => above) room

end Sequences

/-! ## A procedure that calls another one -/

/-- `PUSHALL`, `ENTER .64bit <$64(8)>`, `PUSH .64bit <$64(5)>`, `CALL <%CB>, <f>`, `POP .64bit <%FER1>`, `LEAVE` and
`POPALL`, with a `RET` at `f`. -/
def Machine.calling : Machine :=
  Machine.withStack.overwrite BIOS_START
    ([Mnemonic.pushall.opcode, Mnemonic.enter.opcode, 0x64, CONSTANT_CODE, 0x64] ++ LittleEndian.bytes 8 8 ++
      [Mnemonic.push.opcode, 0x64, CONSTANT_CODE, 0x64] ++ LittleEndian.bytes 8 5 ++
      [Mnemonic.call.opcode, REGISTER_CODE, 0x64, 0xA2, CONSTANT_CODE, 0x64] ++ LittleEndian.bytes 8 0xC182E ++
      [Mnemonic.pop.opcode, 0x64, REGISTER_CODE, 0x64, 0x01, Mnemonic.leave.opcode, Mnemonic.popall.opcode,
        Mnemonic.ret.opcode])

/-- The machine after so many of its instructions. -/
def Machine.called : ℕ → Machine
  | 0 => Machine.calling
  | count + 1 => (Machine.called count).next Host.ample

/-- All eight instructions run; `POP` gets 5, `RET` goes back behind the `CALL` and the registers are as before. -/
theorem sequence_restores_calling :
    Restores Host.ample (Set.Ici Machine.calling.stackTop) Machine.calling
      [.all Machine.calling.registers (Machine.called 8).registers,
        .word .w64 (registerOf .w64 1) 5 ((Machine.called 6).registers.load (registerOf .w64 1)),
        .ret (0, 0xC1827) ((Machine.called 5).registers.CodeBase, (Machine.called 5).registers.InstructionPointer)]
      (Machine.called 8) := by
  have reached (count : ℕ) {instruction : ActiveInstruction}
      (next : (Machine.called count).nextInstruction = some instruction) :
      fetch (Machine.called count) = .ok instruction (final (fetch (Machine.called count))) := Machine.fetch_of_next next
  have next (count : ℕ) : (Machine.called count).next Host.ample = Machine.called (count + 1) := rfl
  have pushall : (Machine.called 0).At .pushall := ⟨_, reached 0 (by decide +kernel)⟩
  have leave : (Machine.called 6).At .leave := ⟨_, reached 6 (by decide +kernel)⟩
  have popall : (Machine.called 7).At .popall := ⟨_, reached 7 (by decide +kernel)⟩
  have ret : (Machine.called 4).At .ret := ⟨_, reached 4 (by decide +kernel)⟩
  have enter := @reached 1 ⟨Mnemonic.enter.opcode, 0x64, [.constant 8 0x64]⟩ (by decide +kernel)
  have push := @reached 2 ⟨Mnemonic.push.opcode, Width.w64.bcd, [.constant 5 0x64]⟩ (by decide +kernel)
  have call := @reached 3 ⟨Mnemonic.call.opcode, 0, [.register 0x64 0xA2, .constant 0xC182E 0x64]⟩ (by decide +kernel)
  have pop := @reached 5 ⟨Mnemonic.pop.opcode, Width.w64.bcd, [.ofRegister (registerOf .w64 1)]⟩ (by decide +kernel)
  have base : (final (fetch (Machine.called 3))).registers.CodeBase = 0 := by decide +kernel
  have behind : (final (fetch (Machine.called 3))).registers.InstructionPointer = 0xC1827 := by decide +kernel
  have target : (Operand.register 0x64 0xA2).reading (final (fetch (Machine.called 3))).framed = some 0 := by decide +kernel
  have called (kept : Set ℕ) : Sequence Host.ample kept 16 (Machine.called 3) _ (Machine.called 5) :=
    .call call target rfl (.empty _ _) ret
  have pushed (kept : Set ℕ) : Sequence Host.ample kept 24 (Machine.called 2) _ (Machine.called 6) :=
    .word push rfl (called _) pop (by decide) (by decide)
  simp only [base, behind, next, Nat.reduceAdd] at pushed
  have reserves : (Operand.constant 8 0x64).reading ((Machine.called 0).next Host.ample) = some 8 := rfl
  have procedure : Sequence Host.ample (Set.Ici Machine.calling.stackTop) _ _ _ _ :=
    .procedure pushall enter reserves (pushed _) leave popall
  simp only [next, Nat.reduceAdd] at procedure
  exact sequence_restores procedure ⟨by decide, by decide, by decide⟩

end Sysdarft
