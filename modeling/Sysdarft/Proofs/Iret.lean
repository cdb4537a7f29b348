import Sysdarft.Proofs.CodeFetch
import Sysdarft.Proofs.DecoderFrame
import Sysdarft.Proofs.Interruption

/-! # Returning from interruptions

An interruption frame is the image of the register file before anything was changed, so `iret`
restores all of it, provided the stack registers are as on entry and the frame bytes are intact.
A handler may itself be interrupted, to any depth; `HandlerRun` is a run of a handler in which every
step leaves the pending frames alone and every nested interruption returns. A handler may also put
another saved frame in the place of its own, and then `iret` resumes that context.
-/

namespace Sysdarft

open Effects

/-- The 256 bytes at an address. -/
def Machine.frame (machine : Machine) (address : ℕ) : List Byte :=
  FlatMemory.read machine.memory.peek address 256

/-- The instruction at `CB:IP` is a mnemonic without operands. -/
def Machine.At (machine : Machine) (mnemonic : Mnemonic) : Prop :=
  ∃ after, fetch machine = .ok { opcode := mnemonic.opcode, width := 0, operands := [] } after

/-- An opcode without width and operands is the whole instruction. -/
theorem Machine.at_of_code {machine : Machine} {mnemonic : Mnemonic} (code : machine.Code [mnemonic.opcode])
    (nullary : mnemonic.argumentCount = 0) (widthless : mnemonic.requiresWidth = false) : machine.At mnemonic := by
  have moved : Machine.Code { machine with ip_before_pop := machine.registers.InstructionPointer } [mnemonic.opcode] := code
  have popped := popCode8_ok moved
  rw [Machine.At]
  simp only [fetch, popInstruction, bind_apply, modify_apply, popped, findOpcode_opcode, decodeOperationWidth, widthless,
    Bool.false_eq_true, ↓reduceIte, pure_apply, nullary, decodeOperands]
  exact ⟨_, rfl⟩

/-- An instruction without operands runs its procedure, from a state that differs from the one before
in the instruction pointer and the bookkeeping. -/
theorem execute_at (host : Host) {machine : Machine} {mnemonic : Mnemonic} {procedure : Arguments → CPU Unit}
    (reached : machine.At mnemonic) (registered : executorMap host mnemonic = some procedure) :
    ∃ fetched, fetched.core = machine.core ∧
      execute host machine = guarded host (procedure { width := 0, operands := [] }) fetched := by
  obtain ⟨fetched, success⟩ := reached
  have found : (findOpcode mnemonic.opcode).bind (executorMap host) = some procedure := by
    rw [findOpcode_opcode, Option.bind_some, registered]
  refine ⟨fetched, fetch_core success, ?_⟩
  simp only [execute, guarded, executeBody, dispatch, lookupProcedure, found, tryCatch_apply, bind_apply, success,
    pure_apply]

/-- The core determines everything the stack and string procedures read. -/
theorem Machine.registers_of_core {first second : Machine} (same : first.core = second.core) :
    { first.registers with InstructionPointer := 0 } = { second.registers with InstructionPointer := 0 } ∧
      first.memory = second.memory := by
  have registers : first.core.registers = second.core.registers := by rw [same]
  have memory : first.core.memory = second.core.memory := by rw [same]
  exact ⟨registers, memory⟩

/-- `IRET` replaces the register file by the one whose image is on top of the stack. -/
theorem execute_iret (host : Host) {machine : Machine} (registers : Registers) (reached : machine.At .iret)
    (inside : (machine.registers.StackBase + machine.registers.StackPointer).toNat + 256 ≤ machine.memory.total)
    (saved : machine.frame (machine.registers.StackBase + machine.registers.StackPointer).toNat = registers.image) :
    ∃ after, execute host machine = .ok () after ∧ after.registers = registers ∧ after.memory = machine.memory := by
  obtain ⟨fetched, core, run⟩ := execute_at host reached rfl
  obtain ⟨same, memory⟩ := Machine.registers_of_core core
  simp only [Registers.mk.injEq] at same
  have popped := popMemoryFrom_inside fetched fetched.registers.StackBase fetched.registers.StackPointer 256 (by decide)
    (by rw [same.2.2.1, same.2.2.2.1, memory]; exact inside)
  have frame : FlatMemory.read fetched.memory.peek (fetched.registers.StackBase + fetched.registers.StackPointer).toNat
      (256 : Word).toNat = registers.image := by
    rw [same.2.2.1, same.2.2.2.1, memory]
    exact saved
  refine ⟨{ fetched with registers := registers }, ?_, rfl, memory⟩
  simp only [run, guarded, tryCatch_apply, iret, doIret, bind_apply, getRegisters, get_apply, pure_apply, popped,
    frame, Registers.ofImage_image,
    modifyRegisters, modify_apply]

/-- `MOVS` of one frame over another, when the host grants the buffer. -/
theorem execute_movs {host : Host} {machine : Machine} (granted : host.allocates 256 = true)
    (reached : machine.At .movs) (count : machine.registers.load FER3 = 256)
    (source : (machine.registers.ExtendedPointer + machine.registers.ExtendedBase).toNat + 256 ≤ machine.memory.total)
    (target : (machine.registers.DataPointer + machine.registers.DataBase).toNat + 256 ≤ machine.memory.total) :
    ∃ after, execute host machine = .ok () after ∧ after.memory.total = machine.memory.total ∧
      after.memory.peek = FlatMemory.write machine.memory.peek
        (machine.registers.DataPointer + machine.registers.DataBase).toNat
        (machine.frame (machine.registers.ExtendedPointer + machine.registers.ExtendedBase).toNat) := by
  obtain ⟨fetched, core, run⟩ := execute_at host reached rfl
  obtain ⟨same, memory⟩ := Machine.registers_of_core core
  simp only [Registers.mk.injEq] at same
  obtain ⟨full, -, -, -, -, -, dataBase, dataPointer, extendedBase, extendedPointer, -⟩ := same
  have amount : fetched.registers.load FER3 = 256 := by
    rw [← count]
    simp only [Registers.load, FER3, registerOf, full]
  have size : (256 : Word).toNat = 256 := rfl
  rw [← size] at source target
  rw [← memory, ← dataBase, ← dataPointer] at target ⊢
  rw [← memory, ← extendedBase, ← extendedPointer] at source
  have read := readMemory_inside source (by decide)
  have written := writeMemory_inside (FlatMemory.read fetched.memory.peek
    (fetched.registers.ExtendedPointer + fetched.registers.ExtendedBase).toNat 256) target (by decide)
    (FlatMemory.length_read ..)
  rw [run]
  simp only [guarded, tryCatch_apply, movs, bind_apply, getRegisters, get_apply, pure_apply, allocate, amount, size,
    granted, ↓reduceIte, read, written]
  refine ⟨_, rfl, rfl, ?_⟩
  rw [Machine.frame, ← memory, ← extendedBase, ← extendedPointer]
  exact GuestMemory.peek_overwrite _ (by rw [FlatMemory.length_read]; exact target)

/-! ## Interruptions that push a frame -/

/-- The interruption is delivered and its frame is pushed: it is not held by the mask, has no handler
of its own other than the breakpoint handler, and the frame fits. -/
structure PushesFrame (host : Host) (code : Word) (machine : Machine) : Prop where
  known : code.toNat ≤ 0xFF
  handled : builtInHandler host code = none ∨ code = 0x03
  open_ : ¬ Held code machine
  fits : machine.FrameFits

/-- What an interruption leaves for its handler: the stack registers below the frame, and memory with
the frame in it. -/
structure Entered (before after : Machine) : Prop where
  base : after.registers.StackBase = before.registers.StackBase
  pointer : after.registers.StackPointer = before.registers.StackPointer - 256
  memory : after.memory.peek = FlatMemory.write before.memory.peek before.frameAddress before.registers.image
  total : after.memory.total = before.memory.total

theorem PushesFrame.entered {host : Host} {code : Word} {before after : Machine}
    (pushes : PushesFrame host code before) (delivery : doInterruption host code before = .ok () after) :
    Entered before after := by
  rcases pushes.handled with plain | rfl
  · rw [doInterruption_room _ pushes.known plain pushes.open_ pushes.fits] at delivery
    cases delivery
    exact ⟨rfl, rfl, peek_delivered pushes.fits _, rfl⟩
  · rw [doInterruption_debug pushes.fits] at delivery
    cases delivery
    exact ⟨rfl, rfl, peek_delivered pushes.fits 3, rfl⟩

theorem Entered.frame {before after : Machine} (entered : Entered before after) :
    after.frame before.frameAddress = before.registers.image := by
  rw [Machine.frame, entered.memory, ← before.registers.length_image]
  exact FlatMemory.read_write

theorem Entered.stackTop {before after : Machine} (entered : Entered before after) :
    (after.registers.StackBase + after.registers.StackPointer).toNat = before.frameAddress := by
  rw [entered.base, entered.pointer, Machine.frameAddress]

/-! ## Handler runs -/

/-- The stack registers are as on entry. -/
def SameStack (entry now : Machine) : Prop :=
  now.registers.StackBase = entry.registers.StackBase ∧
    now.registers.StackPointer = entry.registers.StackPointer

/-- Two frames that do not overlap. -/
def Apart (first second : ℕ) : Prop := first + 256 ≤ second ∨ second + 256 ≤ first

/-- A run of handler code while the frames at the given addresses are pending. An own step may be
anything that leaves the pending frames alone; a nested interruption pushes a frame apart from them,
runs its own handler with its frame pending as well, and returns. -/
inductive HandlerRun (host : Host) : List ℕ → Machine → Machine → Prop where
  | refl {pending machine} : HandlerRun host pending machine machine
  | step {pending start machine next} (run : HandlerRun host pending start machine)
      (total : next.memory.total = machine.memory.total)
      (own : ∀ address ∈ pending, next.frame address = machine.frame address) :
      HandlerRun host pending start next
  | nested {pending start machine entry last next} {code : Word} (run : HandlerRun host pending start machine)
      (pushes : PushesFrame host code machine) (delivery : doInterruption host code machine = .ok () entry)
      (apart : ∀ address ∈ pending, Apart address machine.frameAddress)
      (handler : HandlerRun host (machine.frameAddress :: pending) entry last)
      (stack : SameStack entry last) (reached : last.At .iret) (returned : execute host last = .ok () next) :
      HandlerRun host pending start next

/-- Pending frames survive every handler run. -/
theorem HandlerRun.keeps {host : Host} {pending : List ℕ} {start finish : Machine}
    (run : HandlerRun host pending start finish) :
    finish.memory.total = start.memory.total ∧
      ∀ address ∈ pending, finish.frame address = start.frame address := by
  induction run with
  | refl => exact ⟨rfl, fun _ _ => rfl⟩
  | step _ total own ih => exact ⟨total.trans ih.1, fun address member => (own address member).trans (ih.2 address member)⟩
  | @nested pending start machine entry last next code _ pushes delivery apart _ stack reached returned ih inner =>
    have entered := pushes.entered delivery
    have top := entered.stackTop
    rw [← stack.1, ← stack.2] at top
    obtain ⟨after, done, -, memory⟩ := execute_iret host machine.registers reached
      (by rw [top, inner.1, entered.total]; exact pushes.fits.2)
      (by rw [top, inner.2 _ List.mem_cons_self, entered.frame])
    rw [returned] at done
    cases done
    refine ⟨by rw [memory, inner.1, entered.total, ih.1], fun address member => ?_⟩
    calc next.frame address = last.frame address := by rw [Machine.frame, memory, Machine.frame]
      _ = entry.frame address := inner.2 _ (List.mem_cons_of_mem _ member)
      _ = machine.frame address := by
        have disjoint := apart address member
        rw [Machine.frame, entered.memory]
        exact FlatMemory.read_write_disjoint (by rw [Registers.length_image]; exact disjoint)
      _ = start.frame address := ih.2 address member

/-- A frame that is on top of the stack at `IRET` is the register file that is resumed. -/
theorem Entered.resumes {host : Host} {before entry last : Machine} {registers : Registers}
    (entered : Entered before entry) (fits : before.FrameFits) (total : last.memory.total = entry.memory.total)
    (stack : SameStack entry last) (saved : last.frame before.frameAddress = registers.image)
    (reached : last.At .iret) : ∃ after, execute host last = .ok () after ∧ after.registers = registers := by
  have top := entered.stackTop
  rw [← stack.1, ← stack.2] at top
  obtain ⟨after, done, resumed, -⟩ := execute_iret host registers reached
    (by rw [top, total, entered.total]; exact fits.2) (by rw [top]; exact saved)
  exact ⟨after, done, resumed⟩

/-- `IRET` resumes exactly the interrupted register file: from every state with the stack registers as
on entry and the frame intact, in particular after every handler run with nested interruptions. If
the handler copies another saved frame over its own with `MOVS`, `IRET` resumes that one. -/
theorem iret_resumes (host : Host) (code : Word) (interrupted entry : Machine)
    (pushes : PushesFrame host code interrupted) (delivery : doInterruption host code interrupted = .ok () entry) :
    (∀ last, last.memory.total = entry.memory.total → SameStack entry last →
      last.frame interrupted.frameAddress = entry.frame interrupted.frameAddress → last.At .iret →
      ∃ after, execute host last = .ok () after ∧ after.registers = interrupted.registers) ∧
    (∀ last, HandlerRun host [interrupted.frameAddress] entry last → SameStack entry last → last.At .iret →
      ∃ after, execute host last = .ok () after ∧ after.registers = interrupted.registers) ∧
    (∀ copying (other : Registers), HandlerRun host [] entry copying → copying.At .movs →
      copying.registers.load FER3 = 256 →
      (copying.registers.DataPointer + copying.registers.DataBase).toNat = interrupted.frameAddress →
      (copying.registers.ExtendedPointer + copying.registers.ExtendedBase).toNat + 256 ≤ copying.memory.total →
      copying.frame (copying.registers.ExtendedPointer + copying.registers.ExtendedBase).toNat = other.image →
      host.allocates 256 = true →
      ∃ copied, execute host copying = .ok () copied ∧
        ∀ last, HandlerRun host [interrupted.frameAddress] copied last → SameStack entry last → last.At .iret →
          ∃ after, execute host last = .ok () after ∧ after.registers = other) := by
  have entered := pushes.entered delivery
  refine ⟨fun last total stack intact reached => ?_, fun last run stack reached => ?_,
    fun copying other run atMovs count target source saved granted => ?_⟩
  · exact entered.resumes pushes.fits total stack (intact.trans entered.frame) reached
  · obtain ⟨total, intact⟩ := run.keeps
    exact entered.resumes pushes.fits total stack ((intact _ List.mem_cons_self).trans entered.frame) reached
  · have total := run.keeps.1
    obtain ⟨copied, done, size, content⟩ := execute_movs granted atMovs count source
      (by rw [target, total, entered.total]; exact pushes.fits.2)
    refine ⟨copied, done, fun last rest stack reached => ?_⟩
    obtain ⟨total', intact⟩ := rest.keeps
    refine entered.resumes pushes.fits (by rw [total', size, total]) stack ?_ reached
    rw [intact _ List.mem_cons_self, Machine.frame, content, target, saved, ← other.length_image]
    exact FlatMemory.read_write

/-- A machine with a stack and handlers at address zero: `IRET` there and `MOVS` after it. -/
def Machine.withHandler : Machine :=
  Machine.withStack.overwrite 0 [Mnemonic.iret.opcode, Mnemonic.movs.opcode, Mnemonic.iret.opcode]

/-- Inside the handler, about to copy the cleared bytes at `0x2000` over its own frame. -/
def Machine.switching : Machine :=
  let entry := Machine.withHandler.delivered 0x20
  { entry with
    registers :=
      { entry.registers with
        FullyExtendedRegister := fun _ => 256
        InstructionPointer := 1
        DataPointer := 0xF00
        ExtendedPointer := 0x2000 } }

/-- An interrupted handler still returns to the interrupted context, and a context switch goes through. -/
theorem iret_resumes_withHandler :
    (∃ next, execute Host.ample ((Machine.withHandler.delivered 0x20).delivered 0x06) = .ok () next ∧
      ∃ after, execute Host.ample next = .ok () after ∧ after.registers = Machine.withHandler.registers) ∧
    ∃ copied, execute Host.ample Machine.switching = .ok () copied := by
  have pushes : PushesFrame Host.ample 0x20 Machine.withHandler := ⟨by decide, .inl rfl, by decide, by decide⟩
  have nested : PushesFrame Host.ample 0x06 (Machine.withHandler.delivered 0x20) :=
    ⟨by decide, .inl rfl, by decide, by decide⟩
  have delivery := doInterruption_room Host.ample pushes.known rfl pushes.open_ pushes.fits
  have inner := doInterruption_room Host.ample nested.known rfl nested.open_ nested.fits
  have reached : ((Machine.withHandler.delivered 0x20).delivered 0x06).At .iret :=
    Machine.at_of_code (by rw [Machine.Code]; decide +kernel) rfl rfl
  obtain ⟨next, done, registers, memory⟩ := execute_iret Host.ample
    (Machine.withHandler.delivered 0x20).registers reached (by decide) (by decide +kernel)
  have again : next.At .iret := by
    refine Machine.at_of_code ?_ rfl rfl
    rw [Machine.Code, Machine.codeAddress, registers, memory]
    decide +kernel
  obtain ⟨-, returns, switches⟩ := iret_resumes Host.ample 0x20 Machine.withHandler _ pushes delivery
  obtain ⟨copied, copies, -⟩ := switches Machine.switching (Registers.ofImage []) (.step .refl rfl (by simp))
    (Machine.at_of_code (by rw [Machine.Code]; decide +kernel) rfl rfl) rfl (by decide) (by decide)
    (by decide +kernel) (by decide)
  exact ⟨⟨next, done, returns next
    (.nested .refl nested inner (by simp only [List.mem_singleton, forall_eq]; right; decide) .refl ⟨rfl, rfl⟩ reached done)
    (by rw [SameStack, registers]; exact ⟨rfl, rfl⟩) again⟩, copied, copies⟩

end Sysdarft
