import Sysdarft.Model.PolledBoot
import Sysdarft.Proofs.BootRequests
import Sysdarft.Proofs.KeyboardDelivery

/-! # The wait for input as one step

While the boot thread goes through interruption `0x14`, nothing else touches the machine but the key that halts it. So a
run of the boot loop with its wait is a run of `System`, in which the whole interruption is a step of `execute` for some
event of the host: the other threads step in front of it, and the key that halts the machine behind it.
-/

namespace Sysdarft

open Effects Runs

theorem nextInterruption_eq_some_iff {machine fetched : Machine} {code : Word} :
    nextInterruption machine = some (code, fetched) ↔
      ∃ length, machine.Interrupts code length ∧ fetched = machine.fetched length := by
  have fetch := fetch_apply machine
  rw [nextInterruption]
  cases found : machine.decoded with
  | failed message length | starved length =>
    rw [found] at fetch
    rw [fetch]
    refine iff_of_false nofun ?_
    rintro ⟨length', ⟨arguments, decoded, -⟩, -⟩
    rw [found] at decoded
    cases decoded
  | done decoded length =>
    obtain ⟨mnemonic, arguments⟩ := decoded
    rw [found] at fetch
    rw [fetch]
    have opcode : findOpcode (activeInstruction (mnemonic, arguments)).opcode = some mnemonic := findOpcode_opcode mnemonic
    have whole : (⟨(activeInstruction (mnemonic, arguments)).width, (activeInstruction (mnemonic, arguments)).operands⟩ :
        Arguments) = arguments := rfl
    dsimp only
    rw [opcode, whole]
    constructor
    · intro next
      split_ifs at next with software
      cases software
      rcases keeps_all_cases (keeps_argument arguments 0) (machine.fetched length) with ⟨value, read⟩ | ⟨fault, failed⟩
      · rw [read] at next
        cases next
        exact ⟨length, ⟨arguments, found, read⟩, rfl⟩
      · rw [failed] at next
        cases next
    · rintro ⟨length', ⟨arguments', decoded, read⟩, rfl⟩
      rw [found] at decoded
      cases decoded
      rw [if_pos rfl, read]

namespace PolledSystem

variable {system next : PolledSystem} {label : Label} {host : Host}

/-! ## The steps of the boot thread -/

/-- A step of the boot thread outside of interruption `0x14`, its start, or a step of it. -/
inductive BootMove (host : Host) (system : PolledSystem) : Label → PolledSystem → Prop where
  | outside {label : Label} {boot : System} (queue : List KeyCode) (outside : system.poll = .outside)
      (apart : ∀ fetched, system.interruption ≠ some (0x14, fetched))
      (step : system.boot.bootStep host = some (label, boot)) :
      BootMove host system label { system with boot := boot, captured_input := queue }
  | enter {fetched : Machine} (outside : system.poll = .outside) (place : system.boot.point = .execute)
      (found : nextInterruption system.boot.machine = some (0x14, fetched)) :
      BootMove host system .quiet { system with boot := { system.boot with machine := fetched }, poll := .loop }
  | poll {inputLabel : InputLabel} {input : InputSystem} (inside : system.poll ≠ .outside)
      (step : system.input.inputStep = some (inputLabel, input)) :
      BootMove host system .quiet (system.withInput input).returned

theorem bootStep_cases (done : system.bootStep host = some (label, next)) : BootMove host system label next := by
  rw [bootStep] at done
  split_ifs at done with outside
  · cases found : system.interruption with
    | none =>
      rw [found] at done
      obtain ⟨⟨_, boot⟩, step, same⟩ := Option.map_eq_some_iff.mp done
      cases same
      exact .outside system.captured_input outside (by simp [found]) step
    | some interruption =>
      obtain ⟨code, fetched⟩ := interruption
      rw [found] at done
      dsimp only at done
      by_cases input : code = 0x14
      · rw [if_pos input] at done
        cases done
        subst input
        rw [interruption] at found
        split_ifs at found with place
        exact .enter outside place found
      · rw [if_neg input] at done
        obtain ⟨⟨_, boot⟩, step, same⟩ := Option.map_eq_some_iff.mp done
        cases same
        refine .outside _ outside (fun fetched' same => input ?_) step
        rw [found] at same
        exact (Prod.mk.inj (Option.some.inj same)).1
  · obtain ⟨⟨_, input⟩, step, same⟩ := Option.map_eq_some_iff.mp done
    cases same
    exact .poll outside step

end PolledSystem

namespace System

variable {system next : System} {label : Label}

/-! ## The other threads -/

/-- A device does not touch the machine. -/
theorem deviceCall_machine {code : Word} (step : system.deviceCall code = some (label, next)) (machine : Machine) :
    { system with machine := machine }.deviceCall code = some (label, { next with machine := machine }) ∧
      next.machine = system.machine ∧ next.point = system.point := by
  obtain ⟨range, move⟩ := deviceCall_eq_some_iff.mp step
  cases move with
  | ignored mutex => exact ⟨deviceCall_eq_some_iff.mpr ⟨range, .ignored mutex⟩, rfl, rfl⟩
  | locks mutex => exact ⟨deviceCall_eq_some_iff.mpr ⟨range, .locks mutex⟩, rfl, rfl⟩

theorem deviceStep_machine {index : ℕ} (step : system.deviceStep index = some (label, next)) (machine : Machine) :
    { system with machine := machine }.deviceStep index = some (label, { next with machine := machine }) ∧
      next.machine = system.machine ∧ next.point = system.point := by
  obtain ⟨call, found, move⟩ := deviceStep_eq_some_iff.mp step
  cases move with
  | emplace place => exact ⟨deviceStep_eq_some_iff.mpr ⟨call, found, .emplace place⟩, rfl, rfl⟩
  | raise place => exact ⟨deviceStep_eq_some_iff.mpr ⟨call, found, .raise place⟩, rfl, rfl⟩
  | unlock place => exact ⟨deviceStep_eq_some_iff.mpr ⟨call, found, .unlock place⟩, rfl, rfl⟩

/-- Nor does a key, but for the one that halts it. -/
theorem press_machine {key : ControlKey} (other : key ≠ .escape) (machine : Machine) :
    { system with machine := machine }.press key = { system.press key with machine := machine } ∧
      (system.press key).machine = system.machine ∧ (system.press key).point = system.point := by
  cases key with
  | ctrlC | ctrlZ => exact ⟨rfl, rfl, rfl⟩
  | escape => exact absurd rfl other

end System

namespace PolledSystem

variable {system next : PolledSystem} {label : Label} {host : Host}

/-! ## The simulation -/

/-- The labels of steps that touch the queue or the mutex. -/
def loud (trace : List Label) : List Label := trace.filter fun label => label ≠ .quiet

/-- The boot thread is in interruption `0x14`, which this machine was about to fetch. -/
structure Waits (system : PolledSystem) (machine : Machine) : Prop where
  inside : system.poll ≠ .outside
  place : system.boot.point = .execute
  fetched : ∃ length halted, machine.Interrupts 0x14 length ∧
    system.boot.machine = { machine.fetched length with SystemHalted := halted }
  ends : machine.SystemHalted = true → system.boot.machine.SystemHalted = true ∧ system.poll = .loop

/-- While the boot thread waits, `System` is still in front of the instruction. -/
inductive Simulates (system : PolledSystem) : System → Prop where
  | outside (outside : system.poll = .outside) : Simulates system system.boot
  | inside {machine : Machine} (waits : Waits system machine) : Simulates system { system.boot with machine := machine }

variable {first coarse : System} {trace : List Label}

/-- What a step of the interruption leaves as it is. -/
theorem inputStep_flags {input next : InputSystem} {inputLabel : InputLabel}
    (step : input.inputStep = some (inputLabel, next)) :
    next.KeyboardIntAbort = input.KeyboardIntAbort ∧ next.CtrlZShutdownRequested = input.CtrlZShutdownRequested ∧
      next.external_device_requested = input.external_device_requested := by
  cases InputSystem.inputStep_cases step with
  | move | take | use | revert | rewind | halt => exact ⟨rfl, rfl, rfl⟩

theorem withInput_boot {input : InputSystem} {inputLabel : InputLabel}
    (step : system.input.inputStep = some (inputLabel, input)) :
    (system.withInput input).boot = { system.boot with machine := input.machine } := by
  obtain ⟨keyboard, shutdown, external⟩ := inputStep_flags step
  rw [withInput, keyboard, shutdown, external]
  rfl

/-- On a machine that is halted the interruption ends at once. -/
theorem halts_at_once (loop : system.poll = .loop) (stopped : system.boot.machine.SystemHalted = true) :
    system.input.inputStep = some (.halted, { system.input with point := .outside }) := by
  have point : system.input.point = .loop := loop
  have halted : system.input.machine.SystemHalted = true := stopped
  simp only [InputSystem.inputStep, point, halted, ↓reduceIte]

/-- Behind the interruption `execute` returns. -/
theorem returned_of_leaves {input : InputSystem} {inputLabel : InputLabel}
    (step : system.input.inputStep = some (inputLabel, input)) (leaves : inputLabel.leaves = true) :
    (system.withInput input).returned.poll = .outside ∧
      (system.withInput input).returned.boot = { system.boot with machine := input.machine, point := .loop } := by
  have outside : (system.withInput input).poll = .outside := by
    cases InputSystem.inputStep_cases step with
    | move | take => cases leaves
    | use | revert | rewind | halt => rfl
  rw [returned, if_pos outside]
  refine ⟨outside, ?_⟩
  dsimp only
  rw [withInput_boot step]

/-- The end of the interruption as a step of `execute`, but for the flag that halts the machine. -/
theorem Waits.executes {machine : Machine} {inputLabel : InputLabel} {input : InputSystem} (waits : Waits system machine)
    (step : system.input.inputStep = some (inputLabel, input)) (leaves : inputLabel.leaves = true) :
    ∃ host result, execute host machine = .ok () result ∧
      (input.machine = result ∨ input.machine = { result with SystemHalted := true }) := by
  obtain ⟨length, halted, interrupts, fetched⟩ := waits.fetched
  cases running : machine.SystemHalted with
  | false =>
    obtain ⟨event, executed⟩ := InputSystem.inputStep_executes Host.ample interrupts running fetched step leaves
    refine ⟨_, _, executed, ?_⟩
    cases stopped : input.machine.SystemHalted with
    | false => exact .inl (by rw [← stopped])
    | true => exact .inr (by rw [← stopped])
  | true =>
    obtain ⟨stopped, loop⟩ := waits.ends running
    have kept : system.boot.machine = machine.fetched length := by
      have same : halted = true := by rwa [fetched] at stopped
      rw [fetched, same, ← running]
      rfl
    refine ⟨Host.ample, machine.fetched length, execute_completed ?_, .inl ?_⟩
    · have at_once : (machine.fetched length).SystemHalted = true := running
      rw [interrupts.executeBody, doInterruption_builtIn (by decide) rfl, doInterruptionGetInput, bind_ok (get_apply _),
        if_pos at_once]
      rfl
    · rw [halts_at_once loop stopped] at step
      cases step
      exact kept

/-- The interruption ends: `System` executes it, and is halted then if that has happened meanwhile. -/
theorem Waits.leaves {machine : Machine} {inputLabel : InputLabel} {input : InputSystem} (waits : Waits system machine)
    (run : System.Run first trace { system.boot with machine := machine })
    (step : system.input.inputStep = some (inputLabel, input)) (leaves : inputLabel.leaves = true) :
    ∃ later after, System.Run first (trace ++ later) after ∧ Simulates (system.withInput input).returned after ∧
      loud later = [] := by
  obtain ⟨host, result, executed, same⟩ := waits.executes step leaves
  obtain ⟨outside, boot⟩ := returned_of_leaves step leaves
  have done : System.bootStep host { system.boot with machine := machine } =
      some (.quiet, { system.boot with machine := result, point := .loop }) := by
    simp only [System.bootStep, waits.place, executed]
    rfl
  have behind := run.step (.boot host done)
  have simulates := Simulates.outside outside
  rw [boot] at simulates
  rcases same with same | same
  · rw [same] at simulates
    exact ⟨_, _, behind, simulates, rfl⟩
  · have stopped := behind.step (.key _ .escape)
    rw [List.append_assoc] at stopped
    rw [same] at simulates
    exact ⟨_, _, stopped, simulates, rfl⟩

/-- Another thread may halt the machine, and touches nothing else of it. -/
theorem Waits.other {machine : Machine} (waits : Waits system machine) (poll : next.poll = system.poll)
    (place : next.boot.point = system.boot.point) (halted : Bool)
    (kept : next.boot.machine = { system.boot.machine with SystemHalted := halted })
    (stays : system.boot.machine.SystemHalted = true → halted = true) : Waits next machine := by
  obtain ⟨length, _, interrupts, fetched⟩ := waits.fetched
  refine ⟨poll ▸ waits.inside, place.trans waits.place, ⟨length, halted, interrupts, ?_⟩, fun stopped => ?_⟩
  · rw [kept, fetched]
  · obtain ⟨before, loop⟩ := waits.ends stopped
    exact ⟨by rw [kept]; exact stays before, poll.trans loop⟩

/-- A step of the interruption that is not its last. -/
theorem Waits.polls {machine : Machine} {inputLabel : InputLabel} {input : InputSystem} (waits : Waits system machine)
    (step : system.input.inputStep = some (inputLabel, input)) (stays : inputLabel.leaves = false) :
    (system.withInput input).returned.boot = system.boot ∧ Waits (system.withInput input).returned machine := by
  obtain ⟨kept, inside⟩ := InputSystem.inputStep_stays step stays
  have poll : (system.withInput input).poll ≠ .outside := inside
  have boot : (system.withInput input).boot = system.boot := by
    rw [withInput_boot step, kept]
    rfl
  rw [returned, if_neg poll]
  refine ⟨boot, poll, by rw [boot]; exact waits.place, by rw [boot]; exact waits.fetched, fun stopped => ?_⟩
  obtain ⟨halted, loop⟩ := waits.ends stopped
  rw [halts_at_once loop halted] at step
  cases step
  cases stays

/-- A key is queued, or handled by the keyboard thread itself. -/
theorem console_moves (system : PolledSystem) (key : KeyCode) :
    (system.withInput (system.input.monitorConsoleInput key).2).poll = system.poll ∧
      ((system.withInput (system.input.monitorConsoleInput key).2).boot = system.boot ∨
        ∃ control, (system.withInput (system.input.monitorConsoleInput key).2).boot = system.boot.press control) := by
  rw [InputSystem.monitorConsoleInput]
  split_ifs
  · exact ⟨rfl, .inr ⟨.ctrlC, rfl⟩⟩
  · exact ⟨rfl, .inr ⟨.ctrlZ, rfl⟩⟩
  · exact ⟨rfl, .inr ⟨.escape, rfl⟩⟩
  · exact ⟨rfl, .inl rfl⟩

theorem Simulates.same (simulates : Simulates system coarse) (poll : next.poll = system.poll)
    (boot : next.boot = system.boot) : Simulates next coarse := by
  cases simulates with
  | outside outside => exact boot ▸ .outside (poll.trans outside)
  | inside waits => exact boot ▸ .inside (waits.other poll (by rw [boot]) _ (by rw [boot]) id)

/-- The key that halts the machine is pressed behind the interruption, the others at once. -/
theorem Simulates.pressed {control : System.ControlKey} (simulates : Simulates system coarse)
    (run : System.Run first trace coarse)
    (poll : next.poll = system.poll) (boot : next.boot = system.boot.press control) :
    ∃ later after, System.Run first (trace ++ later) after ∧ Simulates next after ∧ loud later = [] := by
  cases simulates with
  | outside outside => exact ⟨_, _, run.step (.key _ control), boot ▸ .outside (poll.trans outside), rfl⟩
  | @inside machine waits =>
    by_cases halts : control = .escape
    · subst halts
      have waits : Waits next machine := waits.other poll (by rw [boot]; rfl) true (by rw [boot]; rfl) fun _ => rfl
      have simulates := Simulates.inside waits
      rw [boot] at simulates
      exact ⟨[], _, by rwa [List.append_nil], simulates, rfl⟩
    · obtain ⟨same, kept, place⟩ := @System.press_machine system.boot control halts machine
      rw [← boot] at same kept place
      exact ⟨_, _, same ▸ run.step (.key _ control), .inside (waits.other poll place _ kept id), rfl⟩

/-- Every step is some steps of `System`, with the same effect on the queue and the mutex. -/
theorem Simulates.step (simulates : Simulates system coarse) (run : System.Run first trace coarse)
    (done : Step system label next) :
    ∃ later after, System.Run first (trace ++ later) after ∧ Simulates next after ∧ loud later = loud [label] := by
  have still : System.Run first (trace ++ []) coarse := by rwa [List.append_nil]
  cases done with
  | boot host step =>
    cases bootStep_cases step with
    | outside queue outside apart moved =>
      cases simulates with
      | inside waits => exact absurd outside waits.inside
      | outside => exact ⟨_, _, run.step (.boot host moved), .outside outside, rfl⟩
    | enter outside place found =>
      cases simulates with
      | inside waits => exact absurd outside waits.inside
      | outside =>
        obtain ⟨length, interrupts, rfl⟩ := nextInterruption_eq_some_iff.mp found
        exact ⟨_, _, still, .inside ⟨nofun, place, ⟨length, _, interrupts, rfl⟩, fun stopped => ⟨stopped, rfl⟩⟩, rfl⟩
    | @poll inputLabel input inside polled =>
      cases simulates with
      | outside outside => exact absurd outside inside
      | inside waits =>
        cases leaves : inputLabel.leaves with
        | true => exact waits.leaves run polled leaves
        | false =>
          obtain ⟨boot, waits⟩ := waits.polls polled leaves
          have simulates := Simulates.inside waits
          rw [boot] at simulates
          exact ⟨_, _, still, simulates, rfl⟩
  | call code step =>
    cases simulates with
    | outside outside => exact ⟨_, _, run.step (.call code step), .outside outside, rfl⟩
    | @inside machine waits =>
      obtain ⟨same, kept, place⟩ := System.deviceCall_machine step machine
      exact ⟨_, _, run.step (.call code same), .inside (waits.other rfl place _ kept id), rfl⟩
  | device index step =>
    cases simulates with
    | outside outside => exact ⟨_, _, run.step (.device index step), .outside outside, rfl⟩
    | @inside machine waits =>
      obtain ⟨same, kept, place⟩ := System.deviceStep_machine step machine
      exact ⟨_, _, run.step (.device index same), .inside (waits.other rfl place _ kept id), rfl⟩
  | console key =>
    obtain ⟨poll, same | ⟨control, pressed⟩⟩ := console_moves system key
    · exact ⟨_, _, still, simulates.same poll same, rfl⟩
    · exact simulates.pressed run poll pressed
  | remote key => exact ⟨_, _, still, simulates.same rfl rfl, rfl⟩
  | pause => exact ⟨_, _, still, simulates.same rfl rfl, rfl⟩

theorem run_simulated {machine : Machine} (run : Run Step (start machine) trace system) :
    ∃ trace' coarse, System.Run (System.start machine) trace' coarse ∧ Simulates system coarse ∧
      loud trace' = loud trace := by
  induction run with
  | start => exact ⟨[], _, .start, .outside rfl, rfl⟩
  | next earlier done ih =>
    obtain ⟨trace', coarse, run, simulates, same⟩ := ih
    obtain ⟨later, after, run, simulates, same'⟩ := simulates.step run done
    refine ⟨_, after, run, simulates, ?_⟩
    rw [loud, loud, List.filter_append, List.filter_append]
    exact congrArg₂ _ same same'

end PolledSystem

end Sysdarft
