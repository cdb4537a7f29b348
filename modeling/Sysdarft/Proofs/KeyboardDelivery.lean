import Sysdarft.Library.Runs
import Sysdarft.Model.Keyboard
import Sysdarft.Proofs.InterruptionNumbers
import Sysdarft.Proofs.OperandFrame

/-! # Delivery of keys

Each key that arrives is queued, and leaves the queue only for the value of an `INT 0x14` that completes with it. An
`INT 0x14` that is cut short has taken no key, and leaves the machine at the same instruction. `%EXR0` has 16 bits, so
the values are the keys only as far as these fit.
-/

namespace Sysdarft

open Effects Reading Runs

namespace InputSystem

/-- The value that `%EXR0` has for a key. -/
def delivered (translate : Bool) (key : KeyCode) : Word :=
  if translate && key == 13 then 10 else (key.setWidth 16).setWidth 64

theorem load_inputValue (machine : Machine) (registers : Registers) (key : KeyCode) :
    (registers.store (inputValue machine key) EXR0).load EXR0 = delivered machine.translate_cr_to_lf key := by
  rw [Registers.load_store, inputValue, delivered]
  split_ifs
  · rfl
  · apply BitVec.eq_of_toNat_eq
    simp only [EXR0, Register.width, Width.bits, BitVec.toNat_setWidth]
    omega

/-- The key that the CPU thread has taken and not yet used. -/
def taken (system : InputSystem) : List KeyCode :=
  match system.point with
  | .gotInput key => if key ≠ -1 then [key] else []
  | _ => []

/-- The keys on their way. -/
def pending (system : InputSystem) : List KeyCode := system.taken ++ system.captured_input

end InputSystem

namespace InputLabel

/-- The key that arrives. -/
def sent : InputLabel → List KeyCode
  | .arrived key => [key]
  | _ => []

/-- The value that is left in `%EXR0`. -/
def received : InputLabel → List Word
  | .completed value => [value]
  | _ => []

/-- No `-1` arrives. -/
def Ordinary (label : InputLabel) : Prop := label ≠ .arrived (-1)

/-- The CPU thread leaves the interruption. -/
def leaves : InputLabel → Bool
  | .completed _ | .cut | .halted => true
  | .quiet | .arrived _ | .entered => false

theorem received_of_stays {label : InputLabel} (stays : label.leaves = false) : label.received = [] := by
  cases label with
  | completed value => cases stays
  | quiet | arrived key | entered | cut | halted => rfl

end InputLabel

namespace InputSystem

variable {system next before entered last after : InputSystem} {label : InputLabel} {translate : Bool}

/-! ## What a step does to the keys -/

/-- No `-1` is queued, and the console's setting is as it was. -/
structure Regular (translate : Bool) (system : InputSystem) : Prop where
  setting : system.machine.translate_cr_to_lf = translate
  keys : ∀ key ∈ system.captured_input, key ≠ -1

/-- A step keeps the keys together: those on their way and the one that arrives are the one that is used and those on
their way then. -/
structure Accounts (translate : Bool) (system : InputSystem) (label : InputLabel) (next : InputSystem) : Prop where
  regular : next.Regular translate
  keys : ∃ used, used.map (delivered translate) = label.received ∧ system.pending ++ label.sent = used ++ next.pending

/-- A step that neither queues, takes nor uses a key. -/
theorem accounts_silent (regular : system.Regular translate)
    (setting : next.machine.translate_cr_to_lf = system.machine.translate_cr_to_lf)
    (queue : next.captured_input = system.captured_input) (taken : next.taken = system.taken)
    (sent : label.sent = []) (received : label.received = []) : Accounts translate system label next := by
  refine ⟨⟨setting.trans regular.setting, ?_⟩, [], received.symm, ?_⟩
  · rw [queue]
    exact regular.keys
  · rw [pending, pending, taken, queue, sent, List.append_nil, List.nil_append]

theorem tryAddInput_accounts (key : KeyCode) (regular : system.Regular translate) (ordinary : key ≠ -1) :
    Accounts translate system (system.tryAddInput key).1 (system.tryAddInput key).2 := by
  refine ⟨⟨regular.setting, fun queued member => ?_⟩, [], rfl, ?_⟩
  · rcases List.mem_append.mp member with old | new
    · exact regular.keys queued old
    · rwa [List.mem_singleton.mp new]
  · exact List.append_assoc ..

/-- The system when the CPU thread has left the interruption with these registers. -/
def left (system : InputSystem) (registers : Registers) : InputSystem :=
  { system with machine := { system.machine with registers := registers }, point := .outside }

/-- What a step of the interruption does: it moves on without a key, takes the first one, uses the one it took, goes
back to the instruction in one of two ways, or ends with the system. -/
inductive HandlerStep (system : InputSystem) : InputLabel → InputSystem → Prop where
  | move (pause : Bool) (point : InputPoint) (inside : point ≠ .outside) (free : system.taken = [])
      (free' : { system with debugger_pause_blocked_int_0x14 := pause, point := point }.taken = [])
      (requested : point = .rewind → system.external_device_requested = true) :
      HandlerStep system .quiet { system with debugger_pause_blocked_int_0x14 := pause, point := point }
  | take {key : KeyCode} {rest : List KeyCode} (free : system.taken = []) (queue : system.captured_input = key :: rest) :
      HandlerStep system .quiet { system with captured_input := rest, point := .gotInput key }
  | use {key : KeyCode} (held : system.taken = [key]) :
      HandlerStep system
        (.completed ((system.machine.registers.store (inputValue system.machine key) EXR0).load EXR0))
        (system.left (system.machine.registers.store (inputValue system.machine key) EXR0))
  | revert (free : system.taken = []) :
      HandlerStep system .cut
        (system.left { system.machine.registers with InstructionPointer := system.machine.ip_before_pop })
  | rewind (free : system.taken = []) (place : system.point = .rewind) :
      HandlerStep system .cut
        (system.left { system.machine.registers with
          InstructionPointer := system.machine.registers.InstructionPointer - system.machine.current_routine_pop_len
          FlagRegister := setFlag system.machine.registers.FlagRegister .interruptionMask false })
  | halt (free : system.taken = []) : HandlerStep system .halted { system with point := .outside }

theorem inputStep_cases (done : system.inputStep = some (label, next)) : HandlerStep system label next := by
  cases at_ : system.point with
  | outside => simp [inputStep, at_] at done
  | loop =>
    have free : system.taken = [] := by rw [taken, at_]
    simp only [inputStep, at_] at done
    split_ifs at done
    · cases done
      exact .halt free
    · cases done
      exact .move _ _ nofun free rfl nofun
  | testKeyboard | testPause | testShutdown =>
    have free : system.taken = [] := by rw [taken, at_]
    simp only [inputStep, at_] at done
    cases done
    refine .move _ _ ?_ free ?_ ?_
    · split_ifs <;> exact nofun
    · rw [taken]
      split_ifs <;> rfl
    · split_ifs <;> exact nofun
  | testExternal =>
    have free : system.taken = [] := by rw [taken, at_]
    simp only [inputStep, at_] at done
    cases done
    by_cases requested : system.external_device_requested = true
    · exact .move _ _ (by rw [if_pos requested]; nofun) free (by rw [taken, if_pos requested]) fun _ => requested
    · refine .move _ _ (by rw [if_neg requested]; nofun) free (by rw [taken, if_neg requested]) ?_
      rw [if_neg requested]
      exact nofun
  | clearPause =>
    simp only [inputStep, at_] at done
    cases done
    exact .move false _ nofun (by rw [taken, at_]) rfl nofun
  | revert =>
    simp only [inputStep, at_] at done
    cases done
    exact .revert (by rw [taken, at_])
  | getInput =>
    have free : system.taken = [] := by rw [taken, at_]
    simp only [inputStep, at_] at done
    cases done
    cases queue : system.captured_input with
    | nil =>
      rw [show system.getInput = { system with point := .gotInput (-1) } by rw [getInput, queue]]
      exact .move _ _ nofun free rfl nofun
    | cons key rest =>
      rw [show system.getInput = { system with captured_input := rest, point := .gotInput key } by rw [getInput, queue]]
      exact .take free queue
  | gotInput key =>
    simp only [inputStep, at_] at done
    split_ifs at done with present
    · cases done
      exact .use (by simp only [taken, at_, if_pos present])
    · cases done
      exact .move _ _ nofun (by simp only [taken, at_, if_neg present]) rfl nofun
  | rewind =>
    simp only [inputStep, at_] at done
    cases done
    exact .rewind (by rw [taken, at_]) at_

theorem inputStep_accounts (regular : system.Regular translate) (done : system.inputStep = some (label, next)) :
    Accounts translate system label next := by
  cases inputStep_cases done with
  | move pause point inside free free' => exact accounts_silent regular rfl rfl (free'.trans free.symm) rfl rfl
  | @take key rest free queue =>
    have ordinary : key ≠ -1 := regular.keys key (by simp [queue])
    refine ⟨⟨regular.setting, fun queued member => regular.keys queued ?_⟩, [], rfl, ?_⟩
    · rw [queue]
      exact List.mem_cons_of_mem _ member
    · rw [pending, free, queue]
      simp only [pending, taken, if_pos ordinary]
      exact List.append_nil _
  | @use key held =>
    refine ⟨⟨regular.setting, regular.keys⟩, [key], ?_, ?_⟩
    · rw [InputLabel.received, load_inputValue, regular.setting]
      rfl
    · rw [pending, held]
      exact List.append_nil _
  | revert free | rewind free | halt free => exact accounts_silent regular rfl rfl free.symm rfl rfl

theorem console_accounts (key : KeyCode) (regular : system.Regular translate)
    (ordinary : (system.monitorConsoleInput key).1.Ordinary) :
    Accounts translate system (system.monitorConsoleInput key).1 (system.monitorConsoleInput key).2 := by
  rw [monitorConsoleInput] at ordinary ⊢
  split_ifs at ordinary ⊢
  · exact accounts_silent regular rfl rfl rfl rfl rfl
  · exact accounts_silent regular rfl rfl rfl rfl rfl
  · exact accounts_silent regular rfl rfl rfl rfl rfl
  · exact tryAddInput_accounts key regular fun same => ordinary (by rw [same]; rfl)

/-! ## The instruction -/

/-- An `INT 0x14` at `CB:IP` is fetched. -/
theorem fetches_iff {machine fetched : Machine} :
    Fetches machine fetched ↔ ∃ length, machine.Interrupts 0x14 length ∧ fetched = machine.fetched length := by
  have fetch := fetch_apply machine
  constructor
  · rintro ⟨instruction, done, opcode, value⟩
    rw [done] at fetch
    cases found : machine.decoded with
    | done decoded length =>
      rw [found] at fetch
      obtain ⟨mnemonic, arguments⟩ := decoded
      cases fetch
      have same : some mnemonic = some Mnemonic.int := (findOpcode_opcode mnemonic).symm.trans opcode
      cases same
      exact ⟨length, ⟨arguments, found, value⟩, rfl⟩
    | failed message length => rw [found] at fetch; cases fetch
    | starved length => rw [found] at fetch; cases fetch
  · rintro ⟨length, ⟨arguments, decoded, value⟩, rfl⟩
    rw [decoded] at fetch
    exact ⟨_, fetch, findOpcode_opcode _, value⟩

theorem step_accounts (regular : system.Regular translate) (ordinary : label.Ordinary)
    (done : system.Step label next) : Accounts translate system label next := by
  cases done with
  | enter outside fetches =>
    obtain ⟨length, -, rfl⟩ := fetches_iff.mp fetches
    exact accounts_silent regular rfl rfl (by simp only [taken, outside]) rfl rfl
  | handler step => exact inputStep_accounts regular step
  | other outside still queue setting =>
    exact accounts_silent regular setting queue (by simp only [taken, outside, still]) rfl rfl
  | console key => exact console_accounts key regular ordinary
  | remote key => exact tryAddInput_accounts key regular fun same => ordinary (by rw [same]; rfl)
  | pause => exact accounts_silent regular rfl rfl rfl rfl rfl
  | request => exact accounts_silent regular rfl rfl rfl rfl rfl

theorem step_conserves (system : InputSystem) (label : InputLabel) (next : InputSystem)
    (regular : system.Regular translate) (ordinary : label.Ordinary) (done : system.Step label next) :
    next.Regular translate ∧ system.pending.map (delivered translate) ++ label.sent.map (delivered translate) =
      label.received ++ next.pending.map (delivered translate) := by
  obtain ⟨holds, used, values, balance⟩ := step_accounts regular ordinary done
  refine ⟨holds, ?_⟩
  rw [← List.map_append, balance, List.map_append, values]

/-- Through a run, the values are those of the keys that arrived, in their order and up to some key. -/
theorem run_delivered {machine : Machine} {trace : List InputLabel} (run : Run Step (start machine) trace last)
    (ordinary : ∀ label ∈ trace, label.Ordinary) :
    trace.flatMap InputLabel.received <+:
      (trace.flatMap InputLabel.sent).map (delivered machine.translate_cr_to_lf) := by
  rw [List.map_flatMap]
  exact run.delivered ordinary ⟨rfl, nofun⟩ step_conserves rfl

theorem run_regular {machine : Machine} {trace : List InputLabel} (run : Run Step (start machine) trace last)
    (ordinary : ∀ label ∈ trace, label.Ordinary) : last.Regular machine.translate_cr_to_lf :=
  (run.conserved ordinary ⟨rfl, nofun⟩ step_conserves).1

/-! ## Waits that are cut short -/

theorem decoded_congr {first second : Machine} (same : first.readable = second.readable)
    (place : first.registers.InstructionPointer = second.registers.InstructionPointer) : first.decoded = second.decoded := by
  have load : first.registers.load = second.registers.load := funext (Machine.load_congr same)
  have base : first.registers.CodeBase = second.registers.CodeBase := Machine.load_congr same (.special .codeBase)
  have address (position : ℕ) : (first.advance position).codeAddress = (second.advance position).codeAddress := by
    simp only [Machine.codeAddress, Machine.advance, base, place]
  have stream : first.codeStream = second.codeStream := by
    funext position size
    rw [Machine.codeStream, Machine.codeStream, address, Machine.memory_congr same]
  rw [Machine.decoded, Machine.decoded, readInstruction_congr load, stream]

/-- The same registers and memory, at the same place, are the same interruption. -/
theorem interrupts_congr {first second : Machine} {code : Word} {length : ℕ} (same : first.readable = second.readable)
    (place : first.registers.InstructionPointer = second.registers.InstructionPointer)
    (interrupts : first.Interrupts code length) : second.Interrupts code length := by
  obtain ⟨arguments, decoded, value⟩ := interrupts
  refine ⟨arguments, (decoded_congr same place).symm.trans decoded, ?_⟩
  rw [Arguments.getVal, Arguments.operand] at value ⊢
  cases found : arguments.operands[0]? with
  | none => rw [found] at value; cases value
  | some operand =>
    simp only [found, pure_bind] at value ⊢
    rw [← Operand.reading_eq_some] at value ⊢
    rw [← value]
    exact (Operand.reading_congr (show (first.fetched length).readable = (second.fetched length).readable from same)
      operand).symm

/-- A step of the interruption that is not its last leaves the machine alone. -/
theorem inputStep_stays (done : system.inputStep = some (label, next)) (stays : label.leaves = false) :
    next.machine = system.machine ∧ next.point ≠ .outside := by
  cases inputStep_cases done with
  | move pause point inside => exact ⟨rfl, inside⟩
  | take => exact ⟨rfl, nofun⟩
  | use | revert | rewind | halt => cases stays

/-- While the CPU thread waits, the machine is as it was fetched, and no key is used. -/
structure Waiting (entered : InputSystem) (trace : List InputLabel) (system : InputSystem) : Prop where
  inside : system.point ≠ .outside
  machine : ∃ halted, system.machine = { entered.machine with SystemHalted := halted }
  regular : system.Regular entered.machine.translate_cr_to_lf
  keys : entered.pending ++ trace.flatMap InputLabel.sent = system.pending

theorem step_waits {trace : List InputLabel} (waiting : Waiting entered trace system) (ordinary : label.Ordinary)
    (stays : label.leaves = false) (done : system.Step label next) : Waiting entered (trace ++ [label]) next := by
  obtain ⟨regular, used, values, balance⟩ := step_accounts waiting.regular ordinary done
  rw [InputLabel.received_of_stays stays, List.map_eq_nil_iff] at values
  subst values
  rw [List.nil_append] at balance
  have keys : entered.pending ++ (trace ++ [label]).flatMap InputLabel.sent = next.pending := by
    rw [List.flatMap_append, List.flatMap_singleton, ← List.append_assoc, waiting.keys, balance]
  suffices kept : next.point ≠ .outside ∧ ∃ halted, next.machine = { system.machine with SystemHalted := halted } by
    obtain ⟨inside, halted, machine⟩ := kept
    obtain ⟨_, before⟩ := waiting.machine
    rw [before] at machine
    exact ⟨inside, ⟨halted, machine⟩, regular, keys⟩
  cases done with
  | enter outside => exact absurd outside waiting.inside
  | handler step =>
    obtain ⟨machine, inside⟩ := inputStep_stays step stays
    exact ⟨inside, system.machine.SystemHalted, machine⟩
  | other outside => exact absurd outside waiting.inside
  | console key =>
    rw [monitorConsoleInput]
    split_ifs
    · exact ⟨waiting.inside, _, rfl⟩
    · exact ⟨waiting.inside, _, rfl⟩
    · exact ⟨waiting.inside, true, rfl⟩
    · exact ⟨waiting.inside, _, rfl⟩
  | remote | pause | request => exact ⟨waiting.inside, _, rfl⟩

theorem run_waits {trace : List InputLabel} (run : Run Step entered trace last)
    (stays : ∀ label ∈ trace, label.Ordinary ∧ label.leaves = false) (inside : entered.point ≠ .outside)
    (regular : entered.Regular entered.machine.translate_cr_to_lf) : Waiting entered trace last := by
  refine run.induct (P := Waiting entered) stays ⟨inside, ⟨_, rfl⟩, regular, ?_⟩ ?_
  · rw [List.flatMap_nil, List.append_nil]
  · intro trace state label after waiting permitted done
    exact step_waits waiting permitted.1 permitted.2 done

/-- Only the fetch of an `INT 0x14` enters the interruption. -/
theorem step_entered (done : system.Step .entered next) :
    system.point = .outside ∧ ∃ fetched, Fetches system.machine fetched ∧
      next = { system with machine := fetched, point := .loop } := by
  generalize named : InputLabel.entered = label at done
  cases done with
  | enter outside fetches => exact ⟨outside, _, fetches, rfl⟩
  | handler step =>
    cases inputStep_cases step with
    | move | take | use | revert | rewind | halt => cases named
  | console key =>
    rw [monitorConsoleInput] at named
    split_ifs at named
    cases named
  | other | remote | pause | request => cases named

/-- Only the CPU thread itself leaves it. -/
theorem step_leaves (done : system.Step label next) (leaves : label.leaves = true) :
    system.inputStep = some (label, next) := by
  cases done with
  | handler step => exact step
  | console key =>
    rw [monitorConsoleInput] at leaves
    split_ifs at leaves <;> cases leaves
  | enter | other | remote | pause | request => cases leaves

/-- The length that was popped leads back. -/
theorem rewind_fetched (machine : Machine) (length : ℕ) :
    (machine.fetched length).registers.InstructionPointer - (machine.fetched length).current_routine_pop_len =
      machine.registers.InstructionPointer := by
  change machine.registers.InstructionPointer + BitVec.ofNat 64 length -
    (machine.registers.InstructionPointer + BitVec.ofNat 64 length - machine.registers.InstructionPointer) = _
  bv_omega

/-- A wait that is cut short used no key, and the same `INT 0x14` is at `CB:IP` again. -/
theorem cut_restores {machine : Machine} {trace wait : List InputLabel} (run : Run Step (start machine) trace before)
    (ordinary : ∀ label ∈ trace, label.Ordinary) (enters : before.Step .entered entered)
    (waits : Run Step entered wait last) (stays : ∀ label ∈ wait, label.Ordinary ∧ label.leaves = false)
    (cut : last.Step .cut after) :
    after.captured_input = before.captured_input ++ wait.flatMap InputLabel.sent ∧
      after.machine.readable = before.machine.readable ∧
      after.machine.registers.InstructionPointer = before.machine.registers.InstructionPointer ∧
      ∃ fetched, Fetches after.machine fetched := by
  obtain ⟨outside, fetched, fetches, rfl⟩ := step_entered enters
  obtain ⟨length, interrupts, rfl⟩ := fetches_iff.mp fetches
  have regular := run_regular run ordinary
  obtain ⟨-, ⟨halted, kept⟩, -, keys⟩ := run_waits waits stays nofun ⟨rfl, regular.keys⟩
  have back : last.taken = [] ∧ after.captured_input = last.captured_input ∧
      after.machine.readable = before.machine.readable ∧
      after.machine.registers.InstructionPointer = before.machine.registers.InstructionPointer := by
    cases inputStep_cases (step_leaves cut rfl) with
    | revert free =>
      rw [left, kept]
      exact ⟨free, rfl, rfl, rfl⟩
    | rewind free =>
      rw [left, kept]
      exact ⟨free, rfl, rfl, rewind_fetched before.machine length⟩
  obtain ⟨free, queue, same, place⟩ := back
  refine ⟨?_, same, place, _, fetches_iff.mpr ⟨length, interrupts_congr same.symm place.symm interrupts, rfl⟩⟩
  have held : last.pending = last.captured_input := by rw [pending, free, List.nil_append]
  rw [queue, ← held]
  exact keys.symm

/-! ## The loop as one step -/

/-- How the loop ends is what the interruption does for some event. -/
theorem inputStep_getInput (host : Host) (done : system.inputStep = some (label, next)) (leaves : label.leaves = true) :
    ∃ event, doInterruptionGetInput { host with inputEvent := event } { system.machine with SystemHalted := false } =
      .ok () { next.machine with SystemHalted := false } := by
  cases inputStep_cases done with
  | move | take => cases leaves
  | @use key =>
    refine ⟨.key key, ?_⟩
    rw [doInterruptionGetInput, bind_ok (get_apply _)]
    simp only [Bool.false_eq_true, ↓reduceIte, inputValue]
    split_ifs <;> rfl
  | revert => exact ⟨.abortRequested, rfl⟩
  | rewind => exact ⟨.externalDeviceRequested, rfl⟩
  | halt => exact ⟨.halted, rfl⟩

/-- The end of a wait is a step of `execute` for some event, when the system was not halted in front of it. -/
theorem inputStep_executes (host : Host) {machine : Machine} {length : ℕ} {halted : Bool}
    (interrupts : machine.Interrupts 0x14 length) (running : machine.SystemHalted = false)
    (kept : system.machine = { machine.fetched length with SystemHalted := halted })
    (done : system.inputStep = some (label, next)) (leaves : label.leaves = true) :
    ∃ event, execute { host with inputEvent := event } machine = .ok () { next.machine with SystemHalted := false } := by
  obtain ⟨event, ends⟩ := inputStep_getInput host done leaves
  have same : { system.machine with SystemHalted := false } = machine.fetched length := by
    rw [kept, ← running]
    rfl
  refine ⟨event, execute_completed ?_⟩
  rw [interrupts.executeBody, doInterruption_builtIn (by decide) rfl, ← same]
  exact ends

/-! ## Delivery -/

/-- Each key is delivered once and in order, as a value; an `INT 0x14` that is cut short consumes none, leaves `%EXR0`
alone and is executed again. -/
structure KeysDelivered (value : Bool → KeyCode → Word) : Prop where
  ordered : ∀ (machine : Machine) (trace : List InputLabel) (last : InputSystem), Run Step (start machine) trace last →
    (∀ label ∈ trace, label.Ordinary) →
      trace.flatMap InputLabel.received <+: (trace.flatMap InputLabel.sent).map (value machine.translate_cr_to_lf)
  restored : ∀ (machine : Machine) (trace wait : List InputLabel) (before entered last after : InputSystem),
    Run Step (start machine) trace before → (∀ label ∈ trace, label.Ordinary) → before.Step .entered entered →
    Run Step entered wait last → (∀ label ∈ wait, label.Ordinary ∧ label.leaves = false) → last.Step .cut after →
      after.captured_input = before.captured_input ++ wait.flatMap InputLabel.sent ∧
      after.machine.registers.InstructionPointer = before.machine.registers.InstructionPointer ∧
      after.machine.registers.load EXR0 = before.machine.registers.load EXR0 ∧
      ∃ fetched, Fetches after.machine fetched

theorem keysDelivered : KeysDelivered delivered := by
  refine ⟨fun machine trace last run ordinary => run_delivered run ordinary, ?_⟩
  intro machine trace wait before entered last after run ordinary enters waits stays cut
  obtain ⟨queue, same, place, again⟩ := cut_restores run ordinary enters waits stays cut
  exact ⟨queue, place, Machine.load_congr same EXR0, again⟩

/-- A powered-on machine whose BIOS starts with `INT <$8(0x14)>`. -/
def asking : Machine :=
  Machine.powerOn.overwrite BIOS_START
    (Format.Instruction.mk .int none [.constant ⟨.w8, 0x14⟩] Format.widthed_none rfl).bytes

theorem asking_fetches : Fetches asking (asking.fetched 4) :=
  fetches_iff.mpr ⟨4, ⟨⟨0, [.constant 0x14 Width.w8.bcd]⟩, rfl, rfl⟩, rfl⟩

/-- A key from the remote console reaches the guest that asks for it. -/
theorem asking_receives {key : KeyCode} (ordinary : key ≠ -1) :
    ∃ trace last, Run Step (start asking) trace last ∧ (∀ label ∈ trace, label.Ordinary) ∧
      trace.flatMap InputLabel.sent = [key] ∧ trace.flatMap InputLabel.received = [delivered false key] := by
  have queued := Run.start.next (Step.remote (start asking) key)
  have entered := queued.next (.enter rfl asking_fetches)
  have looped := entered.next (.handler rfl)
  have keyboard := looped.next (.handler rfl)
  have pause := keyboard.next (.handler rfl)
  have shutdown := pause.next (.handler rfl)
  have taken := shutdown.next (.handler rfl)
  have used := taken.next (.handler (if_pos ordinary))
  refine ⟨_, _, used, ?_, rfl, ?_⟩
  · intro label member
    simp only [List.mem_append, List.mem_singleton, List.not_mem_nil, false_or] at member
    rcases member with ((((((rfl | rfl) | rfl) | rfl) | rfl) | rfl) | rfl) | rfl
    · exact fun same => ordinary (InputLabel.arrived.inj same)
    all_goals exact nofun
  · exact congrArg (fun value => [value]) (load_inputValue _ _ key)

/-- The key 65601 is delivered as 65. -/
theorem not_keysDelivered :
    ¬ KeysDelivered fun translate key => if translate && key == 13 then 10 else key.signExtend 64 := by
  intro every
  obtain ⟨trace, last, run, ordinary, sent, received⟩ := asking_receives (show (65601 : KeyCode) ≠ -1 by decide)
  have values := every.ordered asking trace last run ordinary
  rw [sent, received] at values
  exact absurd values (by decide)

end InputSystem

end Sysdarft
