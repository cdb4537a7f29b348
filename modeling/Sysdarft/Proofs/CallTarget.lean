import Sysdarft.Proofs.ConditionalJumps
import Sysdarft.Proofs.DispatchFaults

/-! # Where `call` goes

`call` pushes the code base and the following instruction pointer and only then reads its operands.
`jmp` reads them at once. The two go to the same place exactly when neither operand shows the pushes: it
is not the stack pointer, and the bytes pushed over a memory operand are the bytes it has already.
-/

namespace Sysdarft

open Effects

variable {machine : Machine}

namespace Machine

/-- There is room for two words on the stack. -/
def HasFrameRoom (machine : Machine) : Prop :=
  machine.HasRoom machine.registers.StackBase machine.registers.StackPointer 16

instance (machine : Machine) : Decidable machine.HasFrameRoom := inferInstanceAs (Decidable (machine.HasRoom ..))

/-- The address of the two words. -/
def returnAddress (machine : Machine) : ℕ :=
  (machine.registers.StackBase + (machine.registers.StackPointer - 16)).toNat

/-- The two words, the last one pushed first. -/
def returnFrame (machine : Machine) : List Byte :=
  LittleEndian.bytes 8 machine.registers.InstructionPointer.toNat ++
    LittleEndian.bytes 8 machine.registers.CodeBase.toNat

/-- The state after both pushes. -/
def framed (machine : Machine) : Machine :=
  (machine.pushed (LittleEndian.bytes 8 machine.registers.CodeBase.toNat)).pushed
    (LittleEndian.bytes 8 machine.registers.InstructionPointer.toNat)

theorem sub_words (pointer : Word) : pointer - 8 - 8 = pointer - 16 := by
  rw [BitVec.sub_sub]
  rfl

theorem framed_registers (machine : Machine) :
    machine.framed.registers = { machine.registers with StackPointer := machine.registers.StackPointer - 16 } := by
  rw [← sub_words]
  simp only [framed, pushed, length_word]
  rfl

/-- The two addresses that are written. -/
theorem frame_places (room : machine.HasFrameRoom) :
    machine.registers.StackPointer.toNat ≥ 16 ∧
      (machine.registers.StackBase + (machine.registers.StackPointer - 8)).toNat = machine.returnAddress + 8 ∧
      machine.returnAddress + 16 ≤ machine.memory.total := by
  obtain ⟨enough, inside⟩ := room
  have bound : machine.memory.total < 2 ^ 63 := machine.memory.addressable
  have places : machine.returnAddress + 16 ≤ machine.memory.total := inside
  refine ⟨enough, ?_, inside⟩
  have split : machine.registers.StackBase + (machine.registers.StackPointer - 8) =
      machine.registers.StackBase + (machine.registers.StackPointer - 16) + 8 := by
    bv_omega
  rw [split, BitVec.toNat_add]
  exact Nat.mod_eq_of_lt (by rw [← returnAddress]; exact lt_of_le_of_lt (by simp; omega) (show 2 ^ 63 < 2 ^ 64 by decide))

/-- A push with room succeeds. -/
theorem pushWord_room (room : machine.HasRoom machine.registers.StackBase machine.registers.StackPointer 8)
    (value : Word) : pushWord value machine = .ok () (machine.pushed (LittleEndian.bytes 8 value.toNat)) := by
  have length := length_word value
  rcases pushStack_cases machine (LittleEndian.bytes 8 value.toNat) (by rw [length]; decide) (by rw [length]; decide)
    with ⟨-, pushed⟩ | ⟨full, -⟩
  · exact pushed
  · rw [length, pushTrouble, if_pos room] at full
    cases full

/-- What a push with room writes. -/
theorem peek_pushed (room : machine.HasRoom machine.registers.StackBase machine.registers.StackPointer 8) (value : Word) :
    (machine.pushed (LittleEndian.bytes 8 value.toNat)).memory.peek =
      FlatMemory.write machine.memory.peek
        (machine.registers.StackBase + (machine.registers.StackPointer - 8)).toNat
        (LittleEndian.bytes 8 value.toNat) := by
  have length := length_word value
  rw [pushed, length]
  exact GuestMemory.peek_overwrite _ (by rw [length]; exact room.2)

theorem first_room (room : machine.HasFrameRoom) :
    machine.HasRoom machine.registers.StackBase machine.registers.StackPointer 8 := by
  obtain ⟨enough, place, inside⟩ := frame_places room
  refine ⟨by omega, ?_⟩
  have eight : (BitVec.ofNat 64 8 : Word) = 8 := rfl
  rw [eight, place]
  exact inside

theorem second_room (room : machine.HasFrameRoom) (value : Word) :
    (machine.pushed (LittleEndian.bytes 8 value.toNat)).HasRoom machine.registers.StackBase
      (machine.registers.StackPointer - 8) 8 := by
  obtain ⟨enough, -, inside⟩ := frame_places room
  refine ⟨?_, ?_⟩
  · bv_omega
  · rw [show BitVec.ofNat 64 8 = (8 : Word) from rfl, sub_words, ← returnAddress]
    exact le_trans (by omega) inside

/-- Both pushes succeed. -/
theorem framed_pushes (room : machine.HasFrameRoom) :
    pushWord machine.registers.CodeBase machine =
        .ok () (machine.pushed (LittleEndian.bytes 8 machine.registers.CodeBase.toNat)) ∧
      pushWord machine.registers.InstructionPointer
          (machine.pushed (LittleEndian.bytes 8 machine.registers.CodeBase.toNat)) = .ok () machine.framed := by
  refine ⟨pushWord_room (first_room room) _, pushWord_room ?_ _⟩
  rw [pushed_pointer]
  exact second_room room _

/-- The pushes write the frame. -/
theorem peek_framed (room : machine.HasFrameRoom) :
    machine.framed.memory.peek = FlatMemory.write machine.memory.peek machine.returnAddress machine.returnFrame := by
  have second := second_room room machine.registers.CodeBase
  rw [← pushed_pointer] at second
  have base : (machine.pushed (LittleEndian.bytes 8 machine.registers.CodeBase.toNat)).registers.StackBase =
      machine.registers.StackBase := rfl
  rw [framed, peek_pushed second, pushed_pointer, base, sub_words, peek_pushed (first_room room), (frame_places room).2.1,
    ← returnAddress, returnFrame, FlatMemory.write_append, length_word]
  apply FlatMemory.write_comm
  rw [length_word, length_word]
  omega

end Machine

/-! ## What the operands show of the pushes -/

/-- The operand reads the same after the pushes. -/
def Operand.Undisturbed (machine : Machine) : Operand → Prop
  | .register widthBCD index => Register.ofCodes widthBCD index ≠ some (.special .stackPointer)
  | .constant _ _ => True
  | .memory address widthBCD =>
    ∀ (width : Width) (offset : Fin 16), Width.ofBcd widthBCD = some width →
      address.toNat ≤ machine.returnAddress + offset →
      machine.returnAddress + offset < address.toNat + width.bytes →
      machine.returnFrame[offset]? = some (machine.memory.peek (machine.returnAddress + offset))

variable {operand operand1 operand2 : Operand} {value base ip : Word}

theorem length_returnFrame (machine : Machine) : machine.returnFrame.length = 16 := by
  rw [Machine.returnFrame, List.length_append, length_word, length_word]

theorem load_framed_iff (machine : Machine) (register : Register) :
    machine.framed.registers.load register = machine.registers.load register ↔ register ≠ .special .stackPointer := by
  rw [machine.framed_registers]
  constructor
  · rintro same rfl
    have moved : machine.registers.StackPointer - 16 = machine.registers.StackPointer := same
    bv_omega
  · intro other
    cases register with
    | general width index => rfl
    | special special => cases special <;> first | rfl | exact absurd rfl other

/-- Two words in memory are equal exactly when their bytes are. -/
theorem Machine.wordAt_inj {first second : Machine} (address : Word) (width : Width) :
    first.wordAt address width = second.wordAt address width ↔
      FlatMemory.read first.memory.peek address.toNat width.bytes =
        FlatMemory.read second.memory.peek address.toNat width.bytes := by
  constructor
  · intro same
    apply LittleEndian.value_inj (by rw [FlatMemory.length_read, FlatMemory.length_read])
    have numbers := congrArg BitVec.toNat same
    have small (machine : Machine) :
        LittleEndian.value (FlatMemory.read machine.memory.peek address.toNat width.bytes) < 2 ^ 64 := by
      refine lt_of_lt_of_le (LittleEndian.value_lt _) ?_
      rw [FlatMemory.length_read]
      cases width <;> decide
    rwa [wordAt, wordAt, BitVec.toNat_ofNat, BitVec.toNat_ofNat, Nat.mod_eq_of_lt (small first),
      Nat.mod_eq_of_lt (small second)] at numbers
  · intro same
    rw [wordAt, wordAt, same]

/-- A word in memory reads the same exactly when the pushes write the bytes it has. -/
theorem wordAt_framed_iff (room : machine.HasFrameRoom) (address : Word) (width : Width) :
    machine.framed.wordAt address width = machine.wordAt address width ↔
      ∀ offset : Fin 16, address.toNat ≤ machine.returnAddress + offset →
        machine.returnAddress + offset < address.toNat + width.bytes →
        machine.returnFrame[offset]? = some (machine.memory.peek (machine.returnAddress + offset)) := by
  have frame := length_returnFrame machine
  rw [Machine.wordAt_inj, Machine.peek_framed room, FlatMemory.read_write_eq_iff, frame]
  exact ⟨fun same offset => same offset offset.isLt, fun same offset inside => same ⟨offset, inside⟩⟩

/-- An operand that can be read reads the same after the pushes exactly when it is undisturbed. -/
theorem reading_framed_iff (room : machine.HasFrameRoom) (reads : operand.reading machine = some value) :
    operand.reading machine.framed = some value ↔ operand.Undisturbed machine := by
  cases operand with
  | register widthBCD index =>
    rw [Operand.reading_codes] at reads ⊢
    obtain ⟨register, known, rfl⟩ := Option.map_eq_some_iff.mp reads
    rw [Operand.Undisturbed, known, Option.map_some, Option.some_inj, load_framed_iff, ne_eq, ne_eq, Option.some_inj]
  | constant number widthBCD => exact ⟨fun _ => trivial, fun _ => reads⟩
  | memory address widthBCD =>
    cases known : Width.ofBcd widthBCD with
    | none =>
      rw [Operand.reading_memory_unknown known] at reads
      cases reads
    | some width =>
      obtain rfl := Width.bcd_of_ofBcd known
      by_cases inside : machine.Holds address width
      · have still : machine.framed.Holds address width := inside
        rw [Operand.reading_memory inside] at reads
        obtain rfl := Option.some.inj reads
        rw [Operand.reading_memory still, Option.some_inj, wordAt_framed_iff room]
        constructor
        · intro same other offset found
          obtain rfl := Option.some.inj (known.symm.trans found)
          exact same offset
        · exact fun same offset => same width offset known
      · rw [Operand.reading_memory_outside inside] at reads
        cases reads

/-! ## Both instructions -/

/-- A jump succeeds with the values of both operands. -/
theorem jmp_eq_ok {width : Byte} {after : Machine}
    (done : jmp { width := width, operands := [operand1, operand2] } machine = .ok () after) :
    operand1.reading machine = some after.registers.CodeBase ∧
      operand2.reading machine = some after.registers.InstructionPointer := by
  obtain ⟨base, middle, known, rest⟩ := bind_eq_ok.mp done
  obtain rfl := keeps_all_ok (keeps_argument _ 0) known
  obtain ⟨ip, last, known', moved⟩ := bind_eq_ok.mp rest
  obtain rfl := keeps_all_ok (keeps_argument _ 1) known'
  obtain rfl := (EStateM.Result.ok.inj moved).2
  exact ⟨Operand.reading_eq_some.mpr known, Operand.reading_eq_some.mpr known'⟩

/-- `call` is a jump after the pushes. -/
theorem dispatch_call (host : Host) (room : machine.HasFrameRoom) (width : Byte) (operands : List Operand) :
    dispatch host { opcode := Mnemonic.call.opcode, width := width, operands := operands } machine =
      jmp { width := width, operands := operands } machine.framed := by
  obtain ⟨first, second⟩ := Machine.framed_pushes room
  rw [dispatch_registered rfl]
  exact (bind_ok first).trans (bind_ok second)

/-- `call` goes where `jmp` goes, with the old code base and the following instruction pointer pushed. -/
def CallsLikeJmp (host : Host) (width : Byte) (operand1 operand2 : Operand) (machine : Machine) : Prop :=
  ∃ called jumped,
    dispatch host { opcode := Mnemonic.call.opcode, width := width, operands := [operand1, operand2] } machine =
      .ok () called ∧
    dispatch host { opcode := Mnemonic.jmp.opcode, width := width, operands := [operand1, operand2] } machine =
      .ok () jumped ∧
    called.registers.CodeBase = jumped.registers.CodeBase ∧
    called.registers.InstructionPointer = jumped.registers.InstructionPointer ∧
    called.registers.StackPointer = machine.registers.StackPointer - 16 ∧
    FlatMemory.read called.memory.peek machine.returnAddress 16 = machine.returnFrame

/-- `call` goes where `jmp` goes exactly when no operand is the stack pointer or lies where the pushes
write other bytes. -/
theorem callsLikeJmp_iff (host : Host) (width : Byte) (operand1 operand2 : Operand) (machine : Machine) (base ip : Word)
    (room : machine.HasFrameRoom) (reads : operand1.reading machine = some base)
    (reads' : operand2.reading machine = some ip) :
    CallsLikeJmp host width operand1 operand2 machine ↔ operand1.Undisturbed machine ∧ operand2.Undisturbed machine := by
  rw [← reading_framed_iff room reads, ← reading_framed_iff room reads']
  have jumps := jmp_apply width (Operand.reading_eq_some.mp reads) (Operand.reading_eq_some.mp reads')
  have dispatched (after : Machine) :
      dispatch host { opcode := Mnemonic.jmp.opcode, width := width, operands := [operand1, operand2] } after =
        jmp { width := width, operands := [operand1, operand2] } after := by
    rw [dispatch_registered rfl]
  constructor
  · rintro ⟨called, jumped, calls, goes, codeBase, pointer, -⟩
    rw [dispatch_call host room] at calls
    rw [dispatched, jumps] at goes
    obtain rfl := (EStateM.Result.ok.inj goes).2
    obtain ⟨first, second⟩ := jmp_eq_ok calls
    rw [codeBase] at first
    rw [pointer] at second
    exact ⟨first, second⟩
  · rintro ⟨still, still'⟩
    have calls := jmp_apply width (Operand.reading_eq_some.mp still) (Operand.reading_eq_some.mp still')
    refine ⟨_, _, (dispatch_call host room width _).trans calls, (dispatched machine).trans jumps, rfl, rfl, ?_, ?_⟩
    · exact congrArg Registers.StackPointer machine.framed_registers
    · exact (congrArg (fun view => FlatMemory.read view machine.returnAddress 16) (Machine.peek_framed room)).trans
        (FlatMemory.read_write_whole (length_returnFrame machine))

/-- `CALL <%CB>, <%FER0>`. -/
theorem callsLikeJmp_withStack :
    CallsLikeJmp Host.ample 0 (.ofRegister (.special .codeBase)) (.ofRegister (registerOf .w64 0)) Machine.withStack := by
  have room : Machine.withStack.HasFrameRoom := by decide
  have undisturbed (register : Register) (other : register ≠ .special .stackPointer) :
      (Operand.ofRegister register).Undisturbed Machine.withStack := by
    rw [Operand.ofRegister, Operand.Undisturbed, Register.ofCodes_codes, ne_eq, Option.some_inj]
    exact other
  exact (callsLikeJmp_iff Host.ample 0 (.ofRegister (.special .codeBase)) (.ofRegister (registerOf .w64 0))
    Machine.withStack _ _ room (Operand.reading_register ..) (Operand.reading_register ..)).mpr
    ⟨undisturbed _ (by decide), undisturbed _ (by decide)⟩

/-- `CALL <%CB>, <%SP>` goes sixteen bytes below the stack pointer that `JMP` goes to. -/
theorem not_callsLikeJmp :
    ¬ ∀ (operand1 operand2 : Operand) (machine : Machine) (base ip : Word), machine.HasFrameRoom →
      operand1.reading machine = some base → operand2.reading machine = some ip →
      CallsLikeJmp Host.ample 0 operand1 operand2 machine := by
  intro every
  have room : Machine.withStack.HasFrameRoom := by decide
  obtain ⟨called, jumped, calls, goes, -, pointer, -⟩ := every (.ofRegister (.special .codeBase))
    (.ofRegister (.special .stackPointer)) Machine.withStack _ _ room (Operand.reading_register ..)
    (Operand.reading_register ..)
  rw [dispatch_call Host.ample room] at calls
  rw [dispatch_registered rfl] at goes
  have shown := (jmp_eq_ok calls).2
  have meant := (jmp_eq_ok goes).2
  rw [Operand.reading_register, Machine.framed_registers] at shown
  rw [Operand.reading_register] at meant
  rw [← pointer] at meant
  have same := shown.trans meant.symm
  revert same
  decide

end Sysdarft
