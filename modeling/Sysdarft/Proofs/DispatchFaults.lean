import Sysdarft.Proofs.Arithmetic
import Sysdarft.Proofs.ProcedureFaults

/-! # The exception of a procedure

Every procedure makes its accesses and checks in the order of the table `troubles`, so its exception is
that of the first one that fails. Stores and stack transfers on the way change the state, but neither the
size of memory nor what an operand refers to.
-/

namespace Sysdarft

open Effects

/-! ## The built-in interruptions -/

/-- Video memory lies below the BIOS, which memory holds. -/
theorem video_inside (machine : Machine) {offset size : ℕ} (below : offset + size ≤ V_WIDTH * V_HEIGHT) :
    VIDEO_MEMORY_START + offset + size ≤ machine.memory.total := by
  have holds : BIOS_START ≤ machine.memory.total := machine.memory.holdsBios
  simp only [V_WIDTH, V_HEIGHT, BIOS_START, VIDEO_MEMORY_START] at *
  omega

private theorem toNat_small {number : ℕ} (small : number ≤ VIDEO_MEMORY_START + V_WIDTH * V_HEIGHT) :
    (BitVec.ofNat 64 number).toNat = number := by
  simp only [V_WIDTH, V_HEIGHT, VIDEO_MEMORY_START] at small
  rw [BitVec.toNat_ofNat, Nat.mod_eq_of_lt (by omega)]

theorem writeVideo_apply (machine : Machine) (offset : ℕ) (bytes : List Byte) (nonempty : 0 < bytes.length)
    (below : offset + bytes.length ≤ V_WIDTH * V_HEIGHT) :
    writeVideo offset bytes machine = .ok () (machine.overwrite (VIDEO_MEMORY_START + offset) bytes) := by
  have address : (BitVec.ofNat 64 (VIDEO_MEMORY_START + offset)).toNat = VIDEO_MEMORY_START + offset :=
    toNat_small (by omega)
  have size : (BitVec.ofNat 64 bytes.length).toNat = bytes.length := toNat_small (by omega)
  have written : writeVideo offset bytes machine = .ok () (machine.overwrite _ bytes) :=
    writeMemory_inside bytes (by rw [address, size]; exact video_inside machine below) (by rw [size]; exact nonempty)
      size.symm
  rw [written, address]

theorem readVideo_apply (machine : Machine) (offset size : ℕ) (nonempty : 0 < size)
    (below : offset + size ≤ V_WIDTH * V_HEIGHT) :
    readVideo offset size machine =
      .ok (FlatMemory.read machine.memory.peek (VIDEO_MEMORY_START + offset) size) machine := by
  have address : (BitVec.ofNat 64 (VIDEO_MEMORY_START + offset)).toNat = VIDEO_MEMORY_START + offset :=
    toNat_small (by omega)
  have count : (BitVec.ofNat 64 size).toNat = size := toNat_small (by omega)
  have read : readVideo offset size machine = .ok (FlatMemory.read machine.memory.peek _ _) machine :=
    readMemory_inside (by rw [address, count]; exact video_inside machine below) (by rw [count]; exact nonempty)
  rw [read, address, count]

/-- Rows that move up one by one move up as one block: each is read before it is written. -/
theorem scrollRows_apply (machine : Machine) (rows i : ℕ) (below : i + rows ≤ V_HEIGHT - 1) :
    scrollRows rows i machine = .ok () (machine.overwrite (VIDEO_MEMORY_START + i * V_WIDTH)
      (FlatMemory.read machine.memory.peek (VIDEO_MEMORY_START + (i + 1) * V_WIDTH) (rows * V_WIDTH))) := by
  simp only [V_WIDTH, V_HEIGHT] at below ⊢
  induction rows generalizing i machine with
  | zero =>
    have inside := video_inside machine (show i * 80 + 0 ≤ V_WIDTH * V_HEIGHT by simp only [V_WIDTH, V_HEIGHT]; omega)
    rw [Nat.zero_mul, FlatMemory.read_zero, machine.overwrite_nil (Nat.le_of_add_right_le inside)]
    rfl
  | succ rows ih =>
    have inside := video_inside machine
      (show (i + 1) * 80 + (80 + rows * 80) ≤ V_WIDTH * V_HEIGHT by simp only [V_WIDTH, V_HEIGHT]; omega)
    have read := readVideo_apply machine ((i + 1) * 80) 80 (by decide) (by simp only [V_WIDTH, V_HEIGHT]; omega)
    generalize row_eq : FlatMemory.read machine.memory.peek (VIDEO_MEMORY_START + (i + 1) * 80) 80 = row at read
    have length : row.length = 80 := by rw [← row_eq, FlatMemory.length_read]
    have written := writeVideo_apply machine (i * 80) row (by omega) (by simp only [V_WIDTH, V_HEIGHT]; omega)
    have kept : FlatMemory.read (machine.overwrite (VIDEO_MEMORY_START + i * 80) row).memory.peek
        (VIDEO_MEMORY_START + (i + 1 + 1) * 80) (rows * 80) =
        FlatMemory.read machine.memory.peek (VIDEO_MEMORY_START + (i + 1) * 80 + 80) (rows * 80) := by
      rw [Machine.overwrite, GuestMemory.peek_overwrite _ (by omega), FlatMemory.read_write_disjoint (by omega),
        show VIDEO_MEMORY_START + (i + 1 + 1) * 80 = VIDEO_MEMORY_START + (i + 1) * 80 + 80 by omega]
    have next : VIDEO_MEMORY_START + (i + 1) * 80 = VIDEO_MEMORY_START + i * 80 + row.length := by omega
    have whole : FlatMemory.read machine.memory.peek (VIDEO_MEMORY_START + (i + 1) * 80) ((rows + 1) * 80) =
        row ++ FlatMemory.read machine.memory.peek (VIDEO_MEMORY_START + (i + 1) * 80 + 80) (rows * 80) := by
      rw [show (rows + 1) * 80 = 80 + rows * 80 by omega, FlatMemory.read_add, row_eq]
    simp only [scrollRows, V_WIDTH]
    rw [bind_ok read, bind_ok written, ih _ _ (by omega), kept, whole, next, Machine.overwrite_append]
    rw [List.length_append, FlatMemory.length_read]
    omega

theorem newline_returns : Returns newline := by
  intro machine
  rw [newline, bind_ok (get_apply machine)]
  split_ifs
  · rw [bind_ok (scrollRows_apply machine _ _ (by decide)), bind_ok (writeVideo_apply _ _ _ (by decide) (by decide))]
    rfl
  · rfl

theorem teletype_returns (text : Byte) : Returns (teletype text) := by
  intro machine
  have row := machine.cursor_y.isLt
  have column := machine.cursor_x.isLt
  rw [teletype, bind_ok (get_apply machine), bind_ok (writeVideo_apply machine _ [text] Nat.one_pos
    (by simp only [V_WIDTH, V_HEIGHT, List.length_singleton] at *; omega))]
  exact returns_ite newline_returns (returns_modify _) _

theorem loadRegister_apply (register : Register) (machine : Machine) :
    loadRegister register machine = .ok (machine.registers.load register) machine := rfl

theorem loadRegister_returns (register : Register) : Returns (loadRegister register) := fun _ => rfl

theorem storeRegister_returns (register : Register) (value : Word) : Returns (storeRegister register value) := fun _ => rfl

theorem getInput_returns (host : Host) : Returns (doInterruptionGetInput host) := by
  intro machine
  rw [doInterruptionGetInput, bind_ok (get_apply machine)]
  split_ifs
  · rfl
  · cases host.inputEvent with
    | halted => rfl
    | abortRequested => rfl
    | key code =>
      dsimp only
      split_ifs <;> rfl
    | externalDeviceRequested => rfl

theorem doInterruptionFatal_returns : Returns doInterruptionFatal := by
  intro machine
  rw [doInterruptionFatal, bind_ok (doInterruptionLookup_ok machine (show (0x00 : Word).toNat ≤ 0xFF by decide))]
  rfl

theorem doStackoverflow_returns : Returns doStackoverflow := by
  intro machine
  rw [doStackoverflow_ok]
  rfl

/-- The built-in handlers of all codes but three never throw. -/
theorem builtInHandler_returns {host : Host} {code : Word} {handler : CPU Unit}
    (found : builtInHandler host code = some handler) (debug : code ≠ 0x03) (position : code ≠ 0x11)
    (bell : code ≠ 0x17) : Returns handler := by
  apply builtInHandler_cases found
  case fatal => exact doInterruptionFatal_returns
  case debug => exact fun same => absurd same debug
  case overflow => exact doStackoverflow_returns
  case tty => exact returns_bind (loadRegister_returns _) fun _ => teletype_returns _
  case setPosition => exact fun same => absurd same position
  case visible => exact returns_bind (loadRegister_returns _) fun _ => returns_modify _
  case line => exact newline_returns
  case input => exact fun _ => getInput_returns host
  case position => exact returns_bind returns_get fun _ => storeRegister_returns _ _
  case info => exact returns_bind returns_get fun _ => storeRegister_returns _ _
  case bell => exact fun same => absurd same bell
  case nothing => exact returns_pure _

/-- A built-in handler is all that a code with one runs. -/
theorem doInterruption_builtIn {host : Host} {code : Word} {handler : CPU Unit} (hardware : code ≤ 0x1F)
    (found : builtInHandler host code = some handler) (machine : Machine) :
    doInterruption host code machine = handler machine := by
  have legal : ¬ BitVec.ofNat 64 MAX_INTERRUPTION_ENTRY < code := by
    rw [BitVec.le_def] at hardware
    rw [BitVec.lt_def, not_lt]
    exact hardware.trans (by decide)
  simp only [doInterruption, if_neg legal, bind_apply, getRegisters, get_apply, pure_apply, if_pos hardware, found]

theorem doInterruptionDebug_thrown (machine : Machine) :
    thrown (doInterruptionDebug machine) = if machine.FrameFits then none else some .stackOverflow := by
  have lookup := doInterruptionLookup_ok { machine with Int3DebugInterrupt := true }
    (show (0x03 : Word).toNat ≤ 0xFF by decide)
  rw [doInterruptionDebug, bind_ok (modify_apply _ machine), bind_ok lookup]
  by_cases fits : machine.FrameFits
  · have room := doPreserveCpuState_room (show Machine.FrameFits { machine with Int3DebugInterrupt := true } from fits)
    rw [bind_ok room, if_pos fits]
    rfl
  · have full := doPreserveCpuState_full (show ¬ Machine.FrameFits { machine with Int3DebugInterrupt := true } from fits)
    rw [bind_error full, if_neg fits]
    rfl

/-- A code without a handler of its own. -/
theorem plain_thrown {host : Host} {code : Word} {machine : Machine} (known : code.toNat ≤ 0xFF)
    (plain : builtInHandler host code = none) (open_ : ¬ Held code machine) :
    thrown (doInterruption host code machine) = if machine.FrameFits then none else some .abort := by
  by_cases fits : machine.FrameFits
  · rw [doInterruption_room host known plain open_ fits, if_pos fits]
    rfl
  · rw [doInterruption_full known plain open_ fits, if_neg fits]
    rfl

theorem builtInHandler_software (host : Host) {code : Word} (software : ¬ code ≤ 0x1F) :
    builtInHandler host code = none := by
  have apart (small : Word) (hardware : small ≤ 0x1F) : code ≠ small := by
    rintro rfl
    exact software hardware
  rw [builtInHandler, if_neg (apart _ (by decide)), if_neg (apart _ (by decide)), if_neg (apart _ (by decide)),
    if_neg (apart _ (by decide)), if_neg (apart _ (by decide)), if_neg (apart _ (by decide)),
    if_neg (apart _ (by decide)), if_neg (apart _ (by decide)), if_neg (apart _ (by decide)),
    if_neg (apart _ (by decide)), if_neg (apart _ (by decide)), if_neg (apart _ (by decide)),
    if_neg (apart _ (by decide))]

/-- The number after the last one is refused by the lookup, and only by it. -/
theorem doInterruption_beyond {host : Host} {machine : Machine} (open_ : ¬ Held 0x100 machine) :
    doInterruption host 0x100 machine = .error (.interruptionOutOfRange "No such interruption: 256") machine := by
  have unmasked : getFlag machine.registers.FlagRegister .interruptionMask = false := by
    by_contra mask
    exact open_ ⟨by decide, by simpa using mask⟩
  have lookup : doInterruptionLookup 0x100 machine = .error (.interruptionOutOfRange "No such interruption: 256") machine :=
    rfl
  simp only [doInterruption, if_neg (show ¬ BitVec.ofNat 64 MAX_INTERRUPTION_ENTRY < 0x100 by decide), bind_apply,
    getRegisters, get_apply, pure_apply, if_neg (show ¬ (0x100 : Word) ≤ 0x1F by decide), deliverUnlessMasked, unmasked,
    Bool.false_eq_true, ↓reduceIte, deliver, lookup]

/-- The codes below the last one have a vector. -/
theorem vector_exists {code : Word} (legal : ¬ BitVec.ofNat 64 MAX_INTERRUPTION_ENTRY < code) (last : code ≠ 0x100) :
    code.toNat ≤ 0xFF := by
  have low : code.toNat ≤ 0x100 := by
    rw [BitVec.lt_def, not_lt] at legal
    exact legal
  have apart : code.toNat ≠ 0x100 := fun same => last (BitVec.eq_of_toNat_eq same)
  omega

theorem doInterruption_thrown (host : Host) (machine : Machine) (code : Word) :
    thrown (doInterruption host code machine) = (interruptionTrouble host machine code).map Trouble.raises := by
  rw [interruptionTrouble]
  split_ifs with illegal held beyond debug fits position range bell starts builtIn fits
  · simp only [doInterruption, if_pos illegal, throw_apply, thrown_error, Option.map_some, Trouble.raises]
  · rw [doInterruption_held illegal held]
    rfl
  · subst beyond
    rw [doInterruption_beyond held]
    rfl
  · subst debug
    rw [doInterruption_builtIn (by decide) rfl, doInterruptionDebug_thrown, if_pos fits]
    rfl
  · subst debug
    rw [doInterruption_builtIn (by decide) rfl, doInterruptionDebug_thrown, if_neg fits]
    rfl
  · subst position
    rw [doInterruption_builtIn (by decide) rfl, doInterruptionSetCurPos, bind_ok (loadRegister_apply EXR0 machine),
      if_pos range]
    rfl
  · subst position
    rw [doInterruption_builtIn (by decide) rfl, doInterruptionSetCurPos, bind_ok (loadRegister_apply EXR0 machine),
      if_neg range]
    rfl
  · subst bell
    rw [doInterruption_builtIn (by decide) rfl, doRingBell, if_pos starts]
    rfl
  · subst bell
    rw [doInterruption_builtIn (by decide) rfl, doRingBell, if_neg starts]
    rfl
  · obtain ⟨handler, found⟩ := Option.isSome_iff_exists.mp builtIn
    have hardware : code ≤ 0x1F := by
      by_contra software
      rw [builtInHandler_software host software] at found
      cases found
    rw [doInterruption_builtIn hardware found]
    exact builtInHandler_returns found debug position bell machine
  all_goals
    have plain : builtInHandler host code = none := by simpa using builtIn
    rw [plain_thrown (vector_exists illegal beyond) plain held]
  · rw [if_pos fits]
    rfl
  · rw [if_neg fits]
    rfl

/-! ## Arithmetic and logic -/

def Machine.memorySize (machine : Machine) : ℕ := machine.memory.total

theorem operationWidth_ok {message : String} {code : Byte} {machine after : Machine} {width : Width}
    (done : operationWidth message code machine = .ok width after) : Width.ofBcd code = some width := by
  rw [operationWidth] at done
  cases known : Width.ofBcd code with
  | none =>
    rw [known] at done
    cases done
  | some other =>
    rw [known] at done
    cases done
    rfl

theorem operationWidth_known (message : String) {code : Byte} {width : Width} (known : Width.ofBcd code = some width)
    (machine : Machine) : operationWidth message code machine = .ok width machine := by
  simp only [operationWidth, known]
  rfl

theorem operationWidth_unknown (message : String) {code : Byte} (unknown : Width.ofBcd code = none)
    (machine : Machine) : operationWidth message code machine = .error (.illegalInstruction message) machine := by
  simp only [operationWidth, unknown]
  rfl

theorem keeps_size_checkOverflow (code : Byte) (value : Word) : Keeps Machine.memorySize (checkOverflow code value) :=
  keeps_bind (keeps_operationWidth _ _) fun _ => keeps_bind keeps_getRegisters fun _ => fun _ => rfl

theorem checkOverflow_thrown (code : Byte) (value : Word) (machine : Machine) :
    thrown (checkOverflow code value machine) = (widthTrouble "Invalid operation width" code).map Trouble.raises := by
  rw [← operationWidth_thrown "Invalid operation width" code machine]
  exact thrown_bind_safe fun _ _ _ => rfl

theorem checkOverflow_safe {code : Byte} {width : Width} (known : Width.ofBcd code = some width) (value : Word)
    (machine : Machine) : thrown (checkOverflow code value machine) = none := by
  rw [checkOverflow_thrown, widthTrouble, known]
  rfl

theorem checkSigned_safe {code : Byte} {width : Width} (known : Width.ofBcd code = some width) (value : Word)
    (machine : Machine) : thrown (checkSigned code value machine) = none := by
  rw [checkSigned]
  split_ifs
  · exact checkOverflow_safe known value machine
  · simp only [checkOverflowSigned, operationWidth, known]
    rfl

variable {host : Host} (arguments : Arguments) (machine : Machine)

theorem reads_none_iff (index : ℕ) :
    arguments.reads machine index = none ↔ ∃ value, arguments.getVal index machine = .ok value machine := by
  have failure := arguments.getVal_thrown index machine
  rcases keeps_all_cases (keeps_argument arguments index) machine with ⟨value, read⟩ | ⟨fault, failed⟩
  · rw [read] at failure ⊢
    refine ⟨fun _ => ⟨value, rfl⟩, fun _ => ?_⟩
    cases known : arguments.reads machine index with
    | none => rfl
    | some trouble =>
      rw [known] at failure
      cases failure
  · rw [failed] at failure ⊢
    refine ⟨fun fine => ?_, nofun⟩
    rw [fine] at failure
    cases failure

theorem binaryArithmetic_thrown (operation : Word → Word → Word → Word) :
    thrown (binaryArithmetic operation arguments machine) =
      raisedBy [arguments.reads machine 0, arguments.reads machine 1,
        widthTrouble "Invalid operation width" arguments.width, arguments.writes machine 0] := by
  refine thrown_look (keeps_argument arguments 0) (arguments.getVal_thrown 0 machine) fun operand1 _ => ?_
  refine thrown_look (keeps_argument arguments 1) (arguments.getVal_thrown 1 machine) fun operand2 _ => ?_
  refine (thrown_bind_ok rfl).trans (thrown_step (checkOverflow_thrown _ _ machine) fun result after checked => ?_)
  have same := keeps_ok (keeps_size_checkOverflow _ _) checked
  rw [← arguments.writes_congr same 0]
  exact thrown_last (arguments.setVal_thrown 0 result after)

theorem unaryArithmetic_thrown (operation : Word → Word) :
    thrown (unaryArithmetic operation arguments machine) =
      raisedBy [arguments.reads machine 0, widthTrouble "Invalid operation width" arguments.width,
        arguments.writes machine 0] := by
  refine thrown_look (keeps_argument arguments 0) (arguments.getVal_thrown 0 machine) fun operand1 _ => ?_
  refine thrown_step (checkOverflow_thrown _ _ machine) fun result after checked => ?_
  have same := keeps_ok (keeps_size_checkOverflow _ _) checked
  rw [← arguments.writes_congr same 0]
  exact thrown_last (arguments.setVal_thrown 0 result after)

/-- `imul` and `mul`: nothing can go wrong once the factor is read. -/
theorem mul_thrown :
    thrown (mul arguments machine) =
      raisedBy [widthTrouble "Unknown width" arguments.width, arguments.reads machine 0] := by
  refine thrown_look (keeps_operationWidth _ _) (operationWidth_thrown _ _ machine) fun width selected => ?_
  refine (thrown_bind_ok rfl).trans ?_
  refine thrown_look (keeps_argument arguments 0) (arguments.getVal_thrown 0 machine) fun factor _ => ?_
  exact (thrown_bind_safe fun _ _ _ => rfl).trans (checkOverflow_safe (operationWidth_ok selected) _ machine)

theorem imul_thrown :
    thrown (imul arguments machine) =
      raisedBy [widthTrouble "Unknown width" arguments.width, arguments.reads machine 0] := by
  refine thrown_look (keeps_operationWidth _ _) (operationWidth_thrown _ _ machine) fun width selected => ?_
  refine (thrown_bind_ok rfl).trans ?_
  refine thrown_look (keeps_argument arguments 0) (arguments.getVal_thrown 0 machine) fun factor _ => ?_
  exact (thrown_bind_safe fun _ _ _ => rfl).trans (checkSigned_safe (operationWidth_ok selected) _ machine)

theorem Arguments.value_of_ok {arguments : Arguments} {machine after : Machine} {index : ℕ} {value : Word}
    (read : arguments.getVal index machine = .ok value after) : arguments.value machine index = value := by
  rw [Arguments.value, read]

theorem div_thrown :
    thrown (div host arguments machine) =
      raisedBy [widthTrouble "Unknown width" arguments.width, arguments.reads machine 0,
        divisionTrouble host machine arguments fun _ _ => false] := by
  refine thrown_look (keeps_operationWidth _ _) (operationWidth_thrown _ _ machine) fun width selected => ?_
  refine (thrown_bind_ok rfl).trans ?_
  refine thrown_look (keeps_argument arguments 0) (arguments.getVal_thrown 0 machine) fun factor read => ?_
  have known := operationWidth_ok selected
  apply thrown_last
  simp only [divisionTrouble, Arguments.value_of_ok read, known, Bool.false_eq_true, ↓reduceIte]
  split_ifs
  · exact doInterruption_thrown host machine 0x01
  · refine (thrown_bind_safe fun _ after _ => ?_).trans (checkOverflow_safe known _ machine)
    exact (thrown_bind_safe fun _ _ _ => rfl).trans (checkOverflow_safe known _ after)

theorem idiv_thrown :
    thrown (idiv host arguments machine) =
      raisedBy [widthTrouble "Unknown width" arguments.width, arguments.reads machine 0,
        divisionTrouble host machine arguments fun width factor =>
          filledBase machine.registers width == BitVec.intMin 64 && factor == -1] := by
  refine thrown_look (keeps_operationWidth _ _) (operationWidth_thrown _ _ machine) fun width selected => ?_
  have filled : loadFilled width machine = .ok (filledBase machine.registers width) machine := rfl
  refine (thrown_bind_ok filled).trans ?_
  refine thrown_look (keeps_argument arguments 0) (arguments.getVal_thrown 0 machine) fun factor read => ?_
  have known := operationWidth_ok selected
  apply thrown_last
  simp only [divisionTrouble, Arguments.value_of_ok read, known, Bool.and_eq_true, beq_iff_eq]
  split_ifs
  · exact doInterruption_thrown host machine 0x01
  · rfl
  · refine (thrown_bind_safe fun _ after _ => ?_).trans (checkSigned_safe known _ machine)
    exact (thrown_bind_safe fun _ _ _ => rfl).trans (checkSigned_safe known _ after)

theorem neg_thrown :
    thrown (neg arguments machine) = raisedBy [arguments.reads machine 0, arguments.writes machine 0] := by
  refine thrown_look (keeps_argument arguments 0) (arguments.getVal_thrown 0 machine) fun operand1 _ => ?_
  refine thrown_step (arguments.setVal_thrown 0 _ machine) fun _ after _ => ?_
  exact (thrown_bind_safe fun _ _ _ => rfl).trans (checkOverflow_safe rfl _ after)

theorem cmp_thrown :
    thrown (cmp arguments machine) = raisedBy [arguments.reads machine 0, arguments.reads machine 1] := by
  refine thrown_look (keeps_argument arguments 0) (arguments.getVal_thrown 0 machine) fun operand1 _ => ?_
  refine thrown_look (keeps_argument arguments 1) (arguments.getVal_thrown 1 machine) fun operand2 _ => ?_
  refine (thrown_bind_ok rfl).trans ((thrown_bind_safe fun _ _ _ => rfl).trans (checkOverflow_safe rfl _ machine))

theorem binaryLogic_thrown (operation : Word → Word → Word) :
    thrown (binaryLogic operation arguments machine) =
      raisedBy [arguments.reads machine 0, arguments.reads machine 1, arguments.writes machine 0] := by
  refine thrown_look (keeps_argument arguments 0) (arguments.getVal_thrown 0 machine) fun operand1 _ => ?_
  refine thrown_look (keeps_argument arguments 1) (arguments.getVal_thrown 1 machine) fun operand2 _ => ?_
  exact thrown_last (arguments.setVal_thrown 0 _ machine)

theorem not_thrown :
    thrown (not_ arguments machine) = raisedBy [arguments.reads machine 0, arguments.writes machine 0] := by
  refine thrown_look (keeps_argument arguments 0) (arguments.getVal_thrown 0 machine) fun operand1 _ => ?_
  exact thrown_last (arguments.setVal_thrown 0 _ machine)

theorem rotate_thrown (rotation : (bits : ℕ) → BitVec bits → ℕ → BitVec bits) :
    thrown (rotate rotation arguments machine) =
      raisedBy [arguments.reads machine 0, arguments.reads machine 1, widthTrouble "Unknown width" arguments.width,
        arguments.writes machine 0] := by
  refine thrown_look (keeps_argument arguments 0) (arguments.getVal_thrown 0 machine) fun operand1 _ => ?_
  refine thrown_look (keeps_argument arguments 1) (arguments.getVal_thrown 1 machine) fun operand2 _ => ?_
  refine thrown_look (keeps_operationWidth _ _) (operationWidth_thrown _ _ machine) fun width _ => ?_
  exact thrown_last (arguments.setVal_thrown 0 _ machine)

theorem rotateCarry_thrown (turn : {bits : ℕ} → BitVec bits → Bool → BitVec bits × Bool) :
    thrown (rotateCarry turn arguments machine) =
      raisedBy [arguments.reads machine 0, arguments.reads machine 1, widthTrouble "Unknown width" arguments.width,
        arguments.writes machine 0] := by
  refine thrown_look (keeps_argument arguments 0) (arguments.getVal_thrown 0 machine) fun operand1 _ => ?_
  refine thrown_look (keeps_argument arguments 1) (arguments.getVal_thrown 1 machine) fun operand2 _ => ?_
  refine (thrown_bind_ok rfl).trans ?_
  refine thrown_look (keeps_operationWidth _ _) (operationWidth_thrown _ _ machine) fun width _ => ?_
  exact thrown_last (arguments.setVal_thrown 0 _ _)

/-! ## Data transfer -/

theorem setArgument_size {arguments : Arguments} {machine after : Machine} {index : ℕ} {value : Word}
    (stored : arguments.setVal index value machine = .ok () after) : after.memory.total = machine.memory.total := by
  obtain ⟨operand, middle, found, success⟩ := bind_eq_ok.mp stored
  obtain rfl := keeps_all_ok (keeps_operand arguments index) found
  rcases operand.setVal_cases value middle with ⟨-, done⟩ | ⟨_, -, failed⟩
  · rw [success] at done
    cases done
    exact operand.stored_total middle value
  · rw [success] at failed
    cases failed

theorem mov_thrown :
    thrown (mov arguments machine) = raisedBy [arguments.reads machine 1, arguments.writes machine 0] := by
  refine thrown_look (keeps_argument arguments 1) (arguments.getVal_thrown 1 machine) fun src _ => ?_
  exact thrown_last (arguments.setVal_thrown 0 src machine)

theorem xchg_thrown :
    thrown (xchg arguments machine) =
      raisedBy [arguments.reads machine 0, arguments.reads machine 1, arguments.writes machine 0,
        arguments.writes machine 1] := by
  refine thrown_look (keeps_argument arguments 0) (arguments.getVal_thrown 0 machine) fun operand1 _ => ?_
  refine thrown_look (keeps_argument arguments 1) (arguments.getVal_thrown 1 machine) fun operand2 _ => ?_
  refine thrown_step (arguments.setVal_thrown 0 operand2 machine) fun _ after stored => ?_
  rw [← arguments.writes_congr (setArgument_size stored) 1]
  exact thrown_last (arguments.setVal_thrown 1 operand1 after)

theorem pushStack_thrown (data : List Byte) (nonempty : 0 < data.length) (small : data.length < 2 ^ 63) :
    thrown (pushStack data machine) =
      (pushTrouble machine machine.registers.StackPointer data.length).map Trouble.raises := by
  rcases pushStack_cases machine data nonempty small with ⟨fine, pushed⟩ | ⟨full, failed⟩
  · rw [pushed, fine]
    rfl
  · rw [failed, full]
    rfl

theorem popStack_thrown (size : ℕ) (nonempty : 0 < size) (small : size < 2 ^ 63) :
    thrown (popStack size machine) = (popTrouble machine machine.registers.StackPointer size).map Trouble.raises := by
  rcases popStack_cases machine size nonempty small with ⟨fine, data, popped⟩ | ⟨full, failed⟩
  · rw [popped, fine]
    rfl
  · rw [failed, full]
    rfl

theorem push_thrown :
    thrown (push arguments machine) =
      raisedBy [arguments.reads machine 0, widthTrouble "Unknown width" arguments.width,
        pushTrouble machine machine.registers.StackPointer ((Width.ofBcd arguments.width).elim 0 Width.bytes)] := by
  refine thrown_look (keeps_argument arguments 0) (arguments.getVal_thrown 0 machine) fun operand1 _ => ?_
  refine thrown_look (keeps_operationWidth _ _) (operationWidth_thrown _ _ machine) fun width selected => ?_
  have length : (LittleEndian.bytes width.bytes operand1.toNat).length = width.bytes := LittleEndian.length_bytes ..
  have pushed := pushStack_thrown machine (LittleEndian.bytes width.bytes operand1.toNat)
    (by rw [length]; exact width.bytes_pos) (by rw [length]; exact width.bytes_lt)
  rw [length] at pushed
  rw [operationWidth_ok selected]
  exact thrown_last pushed

theorem pop_thrown :
    thrown (pop arguments machine) =
      raisedBy [widthTrouble "Unknown width" arguments.width,
        popTrouble machine machine.registers.StackPointer ((Width.ofBcd arguments.width).elim 0 Width.bytes),
        arguments.writes machine 0] := by
  refine thrown_look (keeps_operationWidth _ _) (operationWidth_thrown _ _ machine) fun width selected => ?_
  rw [operationWidth_ok selected]
  refine thrown_step (popStack_thrown machine width.bytes width.bytes_pos width.bytes_lt) fun data after popped => ?_
  have same : after.memory.total = machine.memory.total := by
    rcases popStack_cases machine width.bytes width.bytes_pos width.bytes_lt with ⟨-, _, done⟩ | ⟨-, failed⟩
    · rw [popped] at done
      cases done
      rfl
    · rw [popped] at failed
      cases failed
  rw [← arguments.writes_congr same 0]
  exact thrown_last (arguments.setVal_thrown 0 _ after)

theorem length_pushallData (registers : Registers) : (LittleEndian.wordBytes (pushallData registers)).length = 192 := by
  rw [LittleEndian.length_wordBytes, pushallData]
  simp

theorem pushall_thrown :
    thrown (pushall machine) = raisedBy [pushTrouble machine machine.registers.StackPointer 192] := by
  have length := length_pushallData machine.registers
  have pushed := pushStack_thrown machine (LittleEndian.wordBytes (pushallData machine.registers))
    (by rw [length]; decide) (by rw [length]; decide)
  rw [length] at pushed
  exact thrown_last pushed

theorem popall_thrown :
    thrown (popall machine) = raisedBy [popTrouble machine machine.registers.StackPointer 192] := by
  apply thrown_last
  rw [← popStack_thrown machine 192 (by decide) (by decide)]
  exact thrown_bind_safe fun _ _ _ => rfl

theorem enter_thrown : thrown (enter arguments machine) = raisedBy [arguments.reads machine 0] := by
  apply thrown_last
  rw [← arguments.getVal_thrown 0 machine]
  exact thrown_bind_safe fun _ _ _ => rfl

theorem lea_thrown :
    thrown (lea arguments machine) =
      raisedBy [arguments.check (fun _ => none) 1, arguments.writes machine 0] := by
  have found : thrown (arguments.operand 1 machine) = (arguments.check (fun _ => none) 1).map Trouble.raises := by
    rw [Arguments.operand, Arguments.check]
    cases arguments.operands[1]? with
    | none => rfl
    | some operand => rfl
  refine thrown_look (keeps_operand arguments 1) found fun operand _ => ?_
  exact thrown_last (arguments.setVal_thrown 0 _ machine)

/-- A block that the host has a buffer for. -/
theorem allocated_small {host : Host} {size : ℕ} {machine after : Machine}
    (granted : allocate host size machine = .ok () after) : size < 2 ^ 63 := by
  rw [allocate] at granted
  split_ifs at granted with allowed
  · exact host.allocates_lt size allowed
  · cases granted

theorem writeMemory_thrown {address size : Word} (source : List Byte) (length : source.length = size.toNat)
    (small : size.toNat < 2 ^ 63) :
    thrown (writeMemory address source size machine) =
      (transferTrouble machine address size.toNat).map Trouble.raises := by
  rcases writeMemory_cases source length small with ⟨fine, after, written, -⟩ | ⟨trouble, known, failed⟩
  · rw [written, fine]
    rfl
  · rw [failed, known]
    rfl

theorem readMemory_ok {address size : Word} {data : List Byte} {machine after : Machine} (small : size.toNat < 2 ^ 63)
    (read : readMemory address size machine = .ok data after) :
    data = FlatMemory.read machine.memory.peek address.toNat size.toNat := by
  rcases readMemory_cases machine address small with done | ⟨fault, failed⟩
  · rw [read] at done
    cases done
    rfl
  · rw [read] at failed
    cases failed

theorem movs_thrown :
    let count := machine.registers.load FER3
    thrown (movs host machine) =
      raisedBy [allocationTrouble host count.toNat,
        transferTrouble machine (machine.registers.ExtendedPointer + machine.registers.ExtendedBase) count.toNat,
        transferTrouble machine (machine.registers.DataPointer + machine.registers.DataBase) count.toNat] := by
  intro count
  refine (thrown_bind_ok rfl).trans ?_
  refine thrown_look (keeps_allocate host _) (allocate_thrown host _ machine) fun _ granted => ?_
  have small := allocated_small granted
  refine thrown_look (keeps_readMemory _ _) (readMemory_thrown small) fun buffer read => ?_
  have length : buffer.length = count.toNat := by
    rw [readMemory_ok small read, FlatMemory.length_read]
  exact thrown_last (writeMemory_thrown machine buffer length small)

/-! ## Control flow -/

theorem jmp_thrown :
    thrown (jmp arguments machine) = raisedBy [arguments.reads machine 0, arguments.reads machine 1] := by
  refine thrown_look (keeps_argument arguments 0) (arguments.getVal_thrown 0 machine) fun addr_base _ => ?_
  apply thrown_last
  rw [← arguments.getVal_thrown 1 machine]
  exact thrown_bind_safe fun _ _ _ => rfl

theorem jumpIf_thrown (condition : Word → Bool) :
    thrown (jumpIf condition arguments machine) =
      raisedBy (if condition machine.registers.FlagRegister then
        [arguments.reads machine 0, arguments.reads machine 1] else []) := by
  refine (thrown_bind_ok rfl).trans ?_
  split_ifs
  · exact jmp_thrown arguments machine
  · rfl

theorem loop_thrown :
    thrown (loop arguments machine) =
      raisedBy (if machine.registers.load FER3 - 1 != 0 then
        [arguments.reads machine 0, arguments.reads machine 1] else []) := by
  refine (thrown_bind_ok (loadRegister_apply FER3 machine)).trans ?_
  simp only [bne_iff_ne, ne_eq]
  split_ifs
  · rfl
  · rw [← jmp_thrown arguments machine]
    exact thrown_bind_safe fun _ _ _ => rfl

theorem length_word (value : Word) : (LittleEndian.bytes 8 value.toNat).length = 8 := LittleEndian.length_bytes ..

theorem pushWord_thrown (value : Word) :
    thrown (pushWord value machine) = (pushTrouble machine machine.registers.StackPointer 8).map Trouble.raises := by
  have pushed := pushStack_thrown machine (LittleEndian.bytes 8 value.toNat) (by rw [length_word]; decide)
    (by rw [length_word]; decide)
  rw [length_word] at pushed
  exact pushed

/-- A successful push of a word. -/
theorem pushWord_ok {value : Word} {machine after : Machine} (done : pushWord value machine = .ok () after) :
    after = machine.pushed (LittleEndian.bytes 8 value.toNat) := by
  rcases pushStack_cases machine (LittleEndian.bytes 8 value.toNat) (by rw [length_word]; decide)
    (by rw [length_word]; decide) with ⟨-, pushed⟩ | ⟨-, failed⟩
  · rw [pushWord, pushed] at done
    cases done
    rfl
  · rw [pushWord, failed] at done
    cases done

theorem pushed_pointer (machine : Machine) (value : Word) :
    (machine.pushed (LittleEndian.bytes 8 value.toNat)).registers.StackPointer = machine.registers.StackPointer - 8 := by
  rw [Machine.pushed, length_word]
  rfl

theorem call_thrown :
    thrown (call arguments machine) =
      raisedBy [pushTrouble machine machine.registers.StackPointer 8,
        pushTrouble machine (machine.registers.StackPointer - 8) 8, arguments.reads machine 0,
          arguments.reads machine 1] := by
  refine (thrown_bind_ok rfl).trans ?_
  refine thrown_step (pushWord_thrown machine _) fun _ after done => ?_
  obtain rfl := pushWord_ok done
  have second := pushWord_thrown (machine.pushed (LittleEndian.bytes 8 machine.registers.CodeBase.toNat))
    machine.registers.InstructionPointer
  refine thrown_step (second.trans ?_) fun _ last done => ?_
  · simp only [Machine.pushed, length_word]
    rfl
  · obtain rfl := pushWord_ok done
    exact jmp_thrown arguments _

theorem popWord_thrown :
    thrown (popWord machine) = (popTrouble machine machine.registers.StackPointer 8).map Trouble.raises := by
  rw [← popStack_thrown machine 8 (by decide) (by decide)]
  exact thrown_bind_safe fun _ _ _ => rfl

theorem popWord_ok {value : Word} {machine after : Machine} (done : popWord machine = .ok value after) :
    after = machine.popped 8 := by
  obtain ⟨data, middle, popped, finished⟩ := bind_eq_ok.mp done
  cases finished
  rcases popStack_cases machine 8 (by decide) (by decide) with ⟨-, _, other⟩ | ⟨-, failed⟩
  · rw [popped] at other
    cases other
    rfl
  · rw [popped] at failed
    cases failed

theorem ret_thrown :
    thrown (ret machine) =
      raisedBy [popTrouble machine machine.registers.StackPointer 8,
        popTrouble machine (machine.registers.StackPointer + 8) 8] := by
  refine thrown_step (popWord_thrown machine) fun ip after done => ?_
  obtain rfl := popWord_ok done
  exact thrown_last ((thrown_bind_safe fun _ _ _ => rfl).trans (popWord_thrown (machine.popped 8)))

theorem int_thrown :
    thrown (int_ host arguments machine) =
      raisedBy [arguments.reads machine 0, interruptionTrouble host machine (arguments.value machine 0)] := by
  refine thrown_look (keeps_argument arguments 0) (arguments.getVal_thrown 0 machine) fun code read => ?_
  rw [Arguments.value_of_ok read]
  exact thrown_last (doInterruption_thrown host machine code)

theorem iret_thrown : thrown (iret machine) = raisedBy [popTrouble machine machine.registers.StackPointer 256] := by
  apply thrown_last
  rw [popTrouble]
  by_cases inside : (machine.registers.StackBase + machine.registers.StackPointer).toNat + 256 ≤ machine.memory.total
  · rw [if_pos inside, iret, doIret, bind_ok (show getRegisters machine = .ok machine.registers machine from rfl),
      bind_ok (popMemoryFrom_inside machine _ _ 256 (by decide) inside)]
    rfl
  · rw [if_neg inside, iret, doIret, bind_ok (show getRegisters machine = .ok machine.registers machine from rfl),
      bind_error (popMemoryFrom_outside machine _ _ 256 (by decide) (not_le.mp inside))]
    rfl

/-! ## Input and output -/

theorem deviceTrouble_raises {α : Type} (access : CPU α) :
    thrown (access machine) = (deviceTrouble access machine).map Trouble.raises := by
  rw [deviceTrouble]
  cases access machine with
  | ok a after => rfl
  | error fault after => rfl

theorem keeps_processor_inRequest (host : Host) (port : Word) : Keeps Machine.processor (inRequest host port) :=
  keeps_bind (keeps_processor_hubIns host port) fun device => keeps_processor_popStream64 device port

theorem keeps_processor_insRequest (host : Host) (port cx : Word) : Keeps Machine.processor (insRequest host port cx) := by
  refine keeps_bind (keeps_processor_hubIns host port) fun device => keeps_bind keeps_get fun machine => ?_
  exact keeps_ite (keeps_throw _) (keeps_bind (keeps_allocate host _) fun _ => keeps_pure _)

theorem memory_of_processor {first second : Machine} (same : first.processor = second.processor) :
    first.memory = second.memory := congrArg Prod.snd same

theorem in_thrown :
    thrown (in_ host arguments machine) =
      raisedBy [arguments.reads machine 0, deviceTrouble (inRequest host (arguments.value machine 0)) machine,
        arguments.writes machine 1] := by
  refine thrown_look (keeps_argument arguments 0) (arguments.getVal_thrown 0 machine) fun port read => ?_
  rw [Arguments.value_of_ok read, ← bind_assoc]
  refine thrown_step (deviceTrouble_raises machine (inRequest host port)) fun data after done => ?_
  have same := memory_of_processor (keeps_ok (keeps_processor_inRequest host port) done)
  rw [← arguments.writes_congr (congrArg GuestMemory.total same) 1]
  exact thrown_last (arguments.setVal_thrown 1 data after)

theorem out_thrown :
    thrown (out host arguments machine) =
      raisedBy [arguments.reads machine 0, arguments.reads machine 1, deviceTrouble
        (hubOuts host (arguments.value machine 0) (LittleEndian.bytes 8 (arguments.value machine 1).toNat)) machine] := by
  refine thrown_look (keeps_argument arguments 0) (arguments.getVal_thrown 0 machine) fun port first => ?_
  refine thrown_look (keeps_argument arguments 1) (arguments.getVal_thrown 1 machine) fun data second => ?_
  rw [Arguments.value_of_ok first, Arguments.value_of_ok second]
  exact thrown_last (deviceTrouble_raises machine _)

theorem outs_thrown :
    let count := machine.registers.load FER3
    let address := machine.registers.DataBase + machine.registers.DataPointer
    thrown (outs host arguments machine) =
      raisedBy [arguments.reads machine 0, allocationTrouble host count.toNat,
        transferTrouble machine address count.toNat, deviceTrouble (hubOuts host (arguments.value machine 0)
          (FlatMemory.read machine.memory.peek address.toNat count.toNat)) machine] := by
  intro count address
  refine (thrown_bind_ok rfl).trans ?_
  refine thrown_look (keeps_argument arguments 0) (arguments.getVal_thrown 0 machine) fun port first => ?_
  refine thrown_look (keeps_allocate host _) (allocate_thrown host _ machine) fun _ granted => ?_
  have small := allocated_small granted
  refine thrown_look (keeps_readMemory _ _) (readMemory_thrown small) fun wbuf read => ?_
  rw [Arguments.value_of_ok first, ← readMemory_ok small read]
  exact thrown_last (deviceTrouble_raises machine _)

theorem insRequest_ok {port cx : Word} {machine after : Machine} {device : DeviceIndex} {stream : List Byte}
    (done : insRequest host port cx machine = .ok (device, stream) after) :
    stream.length = cx.toNat ∧ cx.toNat < 2 ^ 63 := by
  obtain ⟨found, middle, -, done⟩ := bind_eq_ok.mp done
  rw [bind_ok (get_apply middle)] at done
  split_ifs at done with mismatch
  · cases done
  · obtain ⟨_, last, granted, finished⟩ := bind_eq_ok.mp done
    have small := allocated_small granted
    cases finished
    rw [not_not.mp mismatch] at small
    exact ⟨not_not.mp mismatch, small⟩

theorem transferTrouble_congr {first second : Machine} (same : first.memory.total = second.memory.total) (address : Word)
    (size : ℕ) : transferTrouble first address size = transferTrouble second address size := by
  rw [transferTrouble, transferTrouble, same]

theorem ins_thrown :
    let count := machine.registers.load FER3
    thrown (ins host arguments machine) =
      raisedBy [arguments.reads machine 0, deviceTrouble (insRequest host (arguments.value machine 0) count) machine,
        transferTrouble machine (machine.registers.DataBase + machine.registers.DataPointer) count.toNat] := by
  intro count
  refine (thrown_bind_ok rfl).trans ?_
  refine thrown_look (keeps_argument arguments 0) (arguments.getVal_thrown 0 machine) fun port read => ?_
  rw [Arguments.value_of_ok read]
  -- The request is the part of the procedure up to the buffer.
  have split : (do
        let device ← hubIns host port
        let stream := (← get).stream device port
        if stream.length ≠ count.toNat then throw (.deviceIOError "IO data length mismatch")
        else
          allocate host stream.length
          setStream device port []
          writeMemory (machine.registers.DataBase + machine.registers.DataPointer) stream count : CPU Unit) =
      (do
        let (device, stream) ← insRequest host port count
        setStream device port []
        writeMemory (machine.registers.DataBase + machine.registers.DataPointer) stream count : CPU Unit) := by
    simp only [insRequest, bind_assoc]
    congr 1
    funext device
    congr 1
    funext current
    split_ifs with mismatch
    · rfl
    · rw [bind_assoc]
      rfl
  refine (congrArg (fun program => thrown (program machine)) split).trans ?_
  refine thrown_step (deviceTrouble_raises machine _) fun ⟨device, stream⟩ after done => ?_
  obtain ⟨length, small⟩ := insRequest_ok done
  have same := congrArg GuestMemory.total (memory_of_processor (keeps_ok (keeps_processor_insRequest host port count) done))
  rw [← transferTrouble_congr same]
  exact (thrown_bind_ok rfl).trans (thrown_last (writeMemory_thrown _ stream length small))

/-! ## All instructions -/

/-- The exception of an instruction is that of the first of its accesses and checks that fails. -/
theorem dispatch_thrown (host : Host) (mnemonic : Mnemonic) (arguments : Arguments) (machine : Machine) :
    thrown (dispatch host ⟨mnemonic.opcode, arguments.width, arguments.operands⟩ machine) =
      raisedBy (troubles host machine arguments mnemonic) := by
  cases registered : executorMap host mnemonic with
  | none =>
    have missing : thrown (dispatch host ⟨mnemonic.opcode, arguments.width, arguments.operands⟩ machine) =
        some .outOfRange := by
      simp only [dispatch, lookupProcedure, findOpcode_opcode, Option.bind_some, registered]
      rfl
    rw [missing]
    cases mnemonic with
    | jc | jnc | jo | jno => rfl
    | _ => cases registered
  | some procedure =>
    rw [dispatch_registered registered]
    cases mnemonic with
    | jc | jnc | jo | jno => cases registered
    | nop | hlt | igni | alwi | leave =>
      cases registered
      rfl
    | add | adc | sub | sbb =>
      cases registered
      exact binaryArithmetic_thrown arguments machine _
    | imul =>
      cases registered
      exact imul_thrown arguments machine
    | mul =>
      cases registered
      exact mul_thrown arguments machine
    | idiv =>
      cases registered
      exact idiv_thrown arguments machine
    | div =>
      cases registered
      exact div_thrown arguments machine
    | neg =>
      cases registered
      exact neg_thrown arguments machine
    | cmp =>
      cases registered
      exact cmp_thrown arguments machine
    | inc | dec =>
      cases registered
      exact unaryArithmetic_thrown arguments machine _
    | and | or | xor | shl | shr =>
      cases registered
      exact binaryLogic_thrown arguments machine _
    | not =>
      cases registered
      exact not_thrown arguments machine
    | rol | ror =>
      cases registered
      exact rotate_thrown arguments machine _
    | rcl | rcr =>
      cases registered
      exact rotateCarry_thrown arguments machine _
    | mov =>
      cases registered
      exact mov_thrown arguments machine
    | xchg =>
      cases registered
      exact xchg_thrown arguments machine
    | push =>
      cases registered
      exact push_thrown arguments machine
    | pop =>
      cases registered
      exact pop_thrown arguments machine
    | pushall =>
      cases registered
      exact pushall_thrown machine
    | popall =>
      cases registered
      exact popall_thrown machine
    | enter =>
      cases registered
      exact enter_thrown arguments machine
    | movs =>
      cases registered
      exact movs_thrown machine
    | lea =>
      cases registered
      exact lea_thrown arguments machine
    | jmp =>
      cases registered
      exact jmp_thrown arguments machine
    | call =>
      cases registered
      exact call_thrown arguments machine
    | ret =>
      cases registered
      exact ret_thrown machine
    | je | jne | jb | jl | jbe | jle =>
      cases registered
      exact jumpIf_thrown arguments machine _
    | int =>
      cases registered
      exact int_thrown arguments machine
    | int3 =>
      cases registered
      exact thrown_last (doInterruption_thrown host machine 0x03)
    | iret =>
      cases registered
      exact iret_thrown machine
    | loop =>
      cases registered
      exact loop_thrown arguments machine
    | in_ =>
      cases registered
      exact in_thrown arguments machine
    | out =>
      cases registered
      exact out_thrown arguments machine
    | ins =>
      cases registered
      exact ins_thrown arguments machine
    | outs =>
      cases registered
      exact outs_thrown arguments machine

end Sysdarft
