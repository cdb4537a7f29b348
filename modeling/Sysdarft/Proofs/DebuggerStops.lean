import Sysdarft.Model.Debugger
import Sysdarft.Proofs.DecoderFormat
import Sysdarft.Proofs.DecoderFrame
import Sysdarft.Proofs.EncodeTarget

/-! # Stops under the debugger

`at_breakpoint` holds the boot thread only while `breakpoint_triggered` is set. Every reason to stop that
`if_breakpoint` decides by itself sets the flag together with its answer. The handler around it answers
true with the flag down, and the flag of the breakpoint interruption is not known to the debugger at all;
these stops are entered and left at once.
-/

namespace Sysdarft.Debugger

open Effects Coding

/-! ## The decision -/

/-- The conditions and watches that the decision evaluates do not throw. -/
def Server.Evaluates (bc : Calculator) (machine : Machine) (server : Server) : Prop :=
  server.stepi = true ∨ server.manual_stop = true ∨
    (server.skip_bios_ip_check = false ∧
      machine.registers.InstructionPointer + machine.registers.CodeBase = BitVec.ofNat 64 BIOS_START) ∨
    ∃ here, breakpointHere bc machine server.breakpoint_list = .ok here ∧
      (here = false → (scanWatches machine server.watch_list).2.2 = none)

/-- When nothing throws, the flag is set exactly when the answer is to stop. -/
theorem ifBreakpoint_flag {bc : Calculator} {machine : Machine} {server : Server}
    (evaluates : server.Evaluates bc machine) :
    (ifBreakpoint bc machine server).2.breakpoint_triggered = (ifBreakpoint bc machine server).1 := by
  simp only [ifBreakpoint]
  by_cases single : server.stepi = true
  · simp only [single, ↓reduceIte]
  · by_cases manual : server.manual_stop = true
    · simp only [single, manual, Bool.false_eq_true, ↓reduceIte]
    · split_ifs with bios
      · rfl
      · rcases evaluates with stepping | stopped | ⟨fresh, first⟩ | ⟨here, decided, watched⟩
        · exact absurd stepping single
        · exact absurd stopped manual
        · simp [fresh, first] at bios
        · rw [decided]
          cases here with
          | true => rfl
          | false =>
            have quiet := watched rfl
            rcases scanned : scanWatches machine server.watch_list with ⟨watch_list, is_hit, failure⟩
            rw [scanned] at quiet
            cases quiet
            rfl

/-- Only a request to continue lowers the flag. -/
theorem serve_flag (bc : Calculator) (server : Server) {request : Request} (other : request ≠ .continue_) :
    (server.serve bc request).breakpoint_triggered = server.breakpoint_triggered := by
  cases request with
  | continue_ => exact absurd rfl other
  | breakNext => rfl
  | setValue operand1 operand2 => rfl
  | stepi on => rfl
  | setBreakpoint CB IP condition =>
    rw [Server.serve]
    split_ifs <;> rfl
  | watch expression =>
    rw [Server.serve]
    split <;> rfl

/-! ## Runs -/

namespace Session

/-- The state in which a step inside `execute` does what a stop asks for: the decision evaluates without an
error, and a stop that is entered was decided, so it is not that of a breakpoint interruption alone. -/
def Decides (bc : Calculator) (session : Session) : Prop :=
  match session.phase with
  | .begin =>
    session.server.Evaluates bc
      { session.system.machine with ip_before_pop := session.system.machine.registers.InstructionPointer }
  | .decided breakpoint_reached =>
    ∀ instruction after, popInstruction session.system.machine = .ok instruction after →
      session.system.machine.Int3DebugInterrupt = true → breakpoint_reached = true
  | _ => True

/-- The boot thread is on its way from the decision to the handler. -/
def Entering (session : Session) : Prop :=
  match session.phase with
  | .decided _ | .entry _ => True
  | _ => False

/-- A run in which no stop is lost: every step inside `execute` decides properly, and no request to continue
comes in between a decision and the entry to the handler. -/
inductive SafeRun (bc : Calculator) (first : Session) : List Event → Session → Prop where
  | start : SafeRun bc first [] first
  | step {trace : List Event} {session next : Session} {event : Event} (earlier : SafeRun bc first trace session)
      (step : Step bc session event next)
      (decides : ∀ host, session.system.point = .execute → session.executeStep bc host = some (event, next) →
        session.Decides bc)
      (timely : event = .continued → ¬ session.Entering) : SafeRun bc first (trace ++ [event]) next

/-- Whether a stop was entered and no request to continue was accepted since. -/
def stopped (trace : List Event) : Bool :=
  trace.foldl (fun held event =>
    match event with
    | .entered _ => true
    | .continued => false
    | _ => held) false

/-- A stop is a stop: the flag is set on entry, and no instruction is executed before a request to continue. -/
structure StopsHold (trace : List Event) : Prop where
  entered : ∀ flag, Event.entered flag ∈ trace → flag = true
  held : ∀ earlier, earlier ++ [Event.executed] <+: trace → stopped earlier = false

/-- The flag is set from the decision to stop until the stop is left. -/
def Flagged (session : Session) : Prop :=
  match session.phase with
  | .decided true | .entry _ => session.server.breakpoint_triggered = true
  | _ => True

/-- The boot thread is held in `at_breakpoint`. -/
def Held (session : Session) : Prop :=
  session.server.breakpoint_triggered = true ∧ ∃ instruction, session.phase = .waiting instruction

structure Invariant (trace : List Event) (session : Session) : Prop where
  stops : StopsHold trace
  flagged : session.Flagged
  held : stopped trace = true → session.Held

variable {bc : Calculator} {trace : List Event} {session next : Session} {event : Event}

@[simp] theorem stopped_snoc (trace : List Event) (event : Event) :
    stopped (trace ++ [event]) =
      match event with
      | .entered _ => true
      | .continued => false
      | _ => stopped trace := by
  simp only [stopped, List.foldl_append, List.foldl_cons, List.foldl_nil]

/-- One more event. -/
theorem StopsHold.snoc (stops : StopsHold trace) (entered : ∀ flag, event = .entered flag → flag = true)
    (held : event = .executed → stopped trace = false) : StopsHold (trace ++ [event]) where
  entered := by
    intro flag member
    rcases List.mem_append.mp member with earlier | last
    · exact stops.entered flag earlier
    · exact entered flag (List.mem_singleton.mp last).symm
  held := by
    intro earlier initial
    rcases List.prefix_concat_iff.mp initial with whole | before
    · obtain ⟨rfl, same⟩ := List.append_inj' whole rfl
      exact held (List.cons.inj same).1.symm
    · exact stops.held earlier before

theorem StopsHold.quiet (stops : StopsHold trace) : StopsHold (trace ++ [.quiet]) :=
  stops.snoc nofun nofun

/-- A step of another thread or of the boot thread outside `execute`. -/
theorem Invariant.aside (invariant : Invariant trace session) (phase : next.phase = session.phase)
    (flag : next.server.breakpoint_triggered = session.server.breakpoint_triggered) :
    Invariant (trace ++ [.quiet]) next where
  stops := invariant.stops.quiet
  flagged := by
    rw [Flagged, phase, flag]
    exact invariant.flagged
  held := by
    rw [stopped_snoc]
    intro waiting
    rw [Held, phase, flag]
    exact invariant.held waiting

/-- A stop that was decided keeps its flag up to the entry. -/
theorem Invariant.notStopped (invariant : Invariant trace session)
    (moving : ∀ instruction, session.phase ≠ .waiting instruction) : stopped trace = false := by
  rw [Bool.eq_false_iff]
  intro waiting
  obtain ⟨-, instruction, phase⟩ := invariant.held waiting
  exact moving instruction phase

/-- A quiet step of the boot thread inside `execute`. -/
theorem Invariant.advance (invariant : Invariant trace session) (free : stopped trace = false)
    (flagged : next.Flagged) : Invariant (trace ++ [.quiet]) next where
  stops := invariant.stops.quiet
  flagged := flagged
  held := by
    rw [stopped_snoc, free]
    nofun

theorem executeStep_invariant {host : Host} (invariant : Invariant trace session) (decides : session.Decides bc)
    (step : session.executeStep bc host = some (event, next)) : Invariant (trace ++ [event]) next := by
  rw [executeStep] at step
  cases phase : session.phase with
  | begin =>
    have free := invariant.notStopped (by simp [phase])
    simp only [Decides, phase] at decides
    have flag := ifBreakpoint_flag decides
    simp only [phase] at step
    cases step
    apply invariant.advance free
    simp only [Flagged]
    split
    · rename_i answer
      rw [flag]
      exact Phase.decided.inj answer
    · rename_i answer
      cases answer
    · trivial
  | decided breakpoint_reached =>
    have free := invariant.notStopped (by simp [phase])
    simp only [Decides, phase] at decides
    simp only [phase] at step
    cases fetched : popInstruction session.system.machine with
    | error fault after =>
      rw [fetched] at step
      cases step
      exact invariant.advance free trivial
    | ok instruction after =>
      have kept : after.Int3DebugInterrupt = session.system.machine.Int3DebugInterrupt := by
        have same := congrArg Machine.Int3DebugInterrupt (keeps_popInstruction session.system.machine)
        rw [fetched] at same
        exact same
      rw [fetched] at step
      dsimp only at step
      split_ifs at step with handled
      · cases step
        apply invariant.advance free
        have reached : breakpoint_reached = true := by
          rw [kept, Bool.or_eq_true] at handled
          rcases handled with interrupted | reached
          · exact decides instruction after fetched interrupted
          · exact reached
        have flag := invariant.flagged
        rw [Flagged, phase, reached] at flag
        exact flag
      · cases step
        exact invariant.advance free trivial
  | entry instruction =>
    have flag := invariant.flagged
    rw [Flagged, phase] at flag
    simp only [phase] at step
    cases step
    refine ⟨invariant.stops.snoc ?_ nofun, trivial, fun _ => ⟨flag, instruction, rfl⟩⟩
    intro other same
    cases same
    exact flag
  | waiting instruction =>
    simp only [phase] at step
    split_ifs at step with triggered
    cases step
    have free : stopped trace = false := by
      rw [Bool.eq_false_iff]
      intro waiting
      exact triggered (invariant.held waiting).1
    exact invariant.advance free trivial
  | procedure instruction =>
    have free := invariant.notStopped (by simp [phase])
    simp only [phase] at step
    cases step
    refine ⟨invariant.stops.snoc nofun fun _ => free, trivial, ?_⟩
    rw [stopped_snoc, free]
    nofun

theorem Step.invariant (step : Step bc session event next) (invariant : Invariant trace session)
    (decides : ∀ host, session.system.point = .execute → session.executeStep bc host = some (event, next) →
      session.Decides bc)
    (timely : event = .continued → ¬ session.Entering) : Invariant (trace ++ [event]) next := by
  cases step with
  | boot host outside step => exact invariant.aside rfl rfl
  | execute host inside step => exact executeStep_invariant invariant (decides host inside step) step
  | call code step => exact invariant.aside rfl rfl
  | device index step => exact invariant.aside rfl rfl
  | key key => exact invariant.aside rfl rfl
  | continue_ stopped =>
    refine ⟨invariant.stops.snoc nofun nofun, ?_, by simp⟩
    have aside := timely rfl
    simp only [Entering] at aside
    simp only [Flagged]
    cases phase : session.phase <;> simp [phase] at aside ⊢
  | request request other => exact invariant.aside rfl (serve_flag bc session.server other)

/-- In every run in which no stop is lost, a stop is a stop. -/
theorem stops_hold {machine : Machine} (run : SafeRun bc (Session.start machine) trace session) : StopsHold trace := by
  have all : Invariant trace session := by
    induction run with
    | start => exact ⟨⟨nofun, by simp⟩, trivial, nofun⟩
    | step earlier step decides timely before => exact step.invariant before decides timely
  exact all.stops

/-! ## A breakpoint interruption -/

theorem SafeRun.run {first : Session} (safe : SafeRun bc first trace session) : Run bc first trace session := by
  induction safe with
  | start => exact .start
  | step earlier step decides timely before => exact before.step step

/-- A step of the boot thread outside `execute` loses no stop. -/
theorem SafeRun.boot {first : Session} {label : Label} {system : System} (run : SafeRun bc first trace session)
    (outside : session.system.point ≠ .execute) (step : session.system.bootStep Host.ample = some (label, system)) :
    SafeRun bc first (trace ++ [.quiet]) { session with system := system } :=
  run.step (.boot Host.ample outside step) (fun _ inside _ => absurd inside outside) nofun

/-- An iteration of the loop with nothing to deliver reaches the instruction. -/
theorem SafeRun.reaches_execute {first : Session} (run : SafeRun bc first trace session)
    (place : session.system.point = .loop) (running : session.system.machine.SystemHalted = false)
    (uninterrupted : session.system.KeyboardIntAbort = false)
    (continuing : session.system.CtrlZShutdownRequested = false)
    (empty : session.system.interruption_requests = []) (free : session.system.protector = none) :
    ∃ later, SafeRun bc first later { session with system := { session.system with point := .execute } } := by
  obtain ⟨⟨machine, keyboard, shutdown, invoked, requests, external, mutex, calls, point⟩, server, phase⟩ := session
  simp only at place running uninterrupted continuing empty free
  subst place uninterrupted continuing empty free
  have entered := run.boot nofun (by rw [System.bootStep]; simp only [running]; rfl)
  have locked := (entered.boot nofun rfl).boot nofun rfl
  have released := ((locked.boot nofun rfl).boot nofun rfl).boot nofun rfl
  exact ⟨_, released.boot nofun rfl⟩

/-- A breakpoint interruption at the start of the BIOS. -/
def interrupting : Machine := Machine.powerOn.overwrite BIOS_START [0x3A]

/-- `execute` notes where the instruction starts. -/
def begun (machine : Machine) : Machine := { machine with ip_before_pop := machine.registers.InstructionPointer }

/-- The machine when it has looked for a breakpoint. -/
def interruptingNow : Machine := begun interrupting

/-- The instruction that is fetched there. -/
def breakpointInstruction : ActiveInstruction := ⟨0x3A, 0, []⟩

theorem popInstruction_interrupting :
    popInstruction interruptingNow = .ok breakpointInstruction (interruptingNow.advance 1) := by
  have code : interruptingNow.Code ([0x3A] ++ []) := by
    rw [Machine.Code]
    decide +kernel
  exact Format.popInstruction_bytes ⟨.int3, none, [], rfl, rfl⟩ code

/-- The machine with the instruction fetched. -/
def interruptingFetched : Machine :=
  let fetched := interruptingNow.advance 1
  { fetched with
    current_routine_pop_len := fetched.registers.InstructionPointer - fetched.ip_before_pop
    Int3DebugInterrupt := false }

/-- A session inside `execute` after the stop at the start of the BIOS was decided. -/
def inBios (machine : Machine) (phase : Phase) : Session where
  system := { System.start interrupting with machine := machine, point := .execute }
  server := { Server.attached with skip_bios_ip_check := true, breakpoint_triggered := true }
  phase := phase

theorem executeStep_interrupting (bc : Calculator) :
    (inBios interruptingNow (.decided true)).executeStep bc Host.ample =
      some (.quiet, inBios interruptingFetched (.entry breakpointInstruction)) := by
  rw [executeStep]
  simp only [inBios]
  rw [popInstruction_interrupting]
  rfl

theorem safeRun_atBios (bc : Calculator) :
    ∃ trace, SafeRun bc (start interrupting) (trace ++ [.entered true])
      (inBios interruptingFetched (.waiting breakpointInstruction)) := by
  have initial : SafeRun bc (start interrupting) [] (start interrupting) := .start
  obtain ⟨before, reached⟩ := initial.reaches_execute rfl rfl rfl rfl rfl rfl
  have decided : SafeRun bc (start interrupting) (before ++ [.quiet]) (inBios interruptingNow (.decided true)) := by
    apply reached.step (.execute Host.ample rfl rfl) _ nofun
    intro host inside step
    exact .inr (.inr (.inl ⟨rfl, by decide⟩))
  have fetched := decided.step (.execute Host.ample rfl (executeStep_interrupting bc))
    (fun _ _ _ _ _ _ _ => rfl) nofun
  exact ⟨_, fetched.step (.execute Host.ample rfl rfl) (fun _ _ _ => trivial) nofun⟩

/-- The stop at the start of the BIOS. -/
theorem stops_hold_bios : ∃ trace session,
    SafeRun numeralCalculator (start interrupting) trace session ∧ .entered true ∈ trace ∧ StopsHold trace := by
  obtain ⟨trace, run⟩ := safeRun_atBios numeralCalculator
  exact ⟨_, _, run, by simp, stops_hold run⟩

/-- The machine after the breakpoint interruption. -/
def interrupted : Machine :=
  final (guarded Host.ample (dispatch Host.ample breakpointInstruction) interruptingFetched)

theorem interrupted_raised : ((begun interrupted).advance 1).Int3DebugInterrupt = true := by decide +kernel

theorem interrupted_running : interrupted.SystemHalted = false := by decide +kernel

theorem popInstruction_interrupted :
    popInstruction (begun interrupted) = .ok ⟨0x00, 0, []⟩ ((begun interrupted).advance 1) := by
  have code : (begun interrupted).Code ([0x00] ++ []) := by
    rw [Machine.Code]
    decide +kernel
  exact Format.popInstruction_bytes ⟨.nop, none, [], rfl, rfl⟩ code

/-- A session inside `execute` after the stop was left. -/
def resumed (machine : Machine) (phase : Phase) : Session where
  system := { System.start interrupting with machine := machine, point := .execute }
  server := { Server.attached with skip_bios_ip_check := true }
  phase := phase

/-- The flag of the breakpoint interruption leads to the handler without a decision to stop. -/
theorem executeStep_raised {machine after : Machine} {instruction : ActiveInstruction} (bc : Calculator)
    (fetched : popInstruction machine = .ok instruction after) (raised : after.Int3DebugInterrupt = true) :
    ∃ machine', (resumed machine (.decided false)).executeStep bc Host.ample =
      some (.quiet, resumed machine' (.entry instruction)) := by
  rw [executeStep]
  simp only [resumed]
  rw [fetched]
  dsimp only
  rw [raised]
  exact ⟨_, rfl⟩

/-- An instruction is executed, and the next one decided without a stop. -/
theorem SafeRun.decides {first : Session} {machine : Machine} {instruction : ActiveInstruction}
    (run : SafeRun bc first trace (resumed machine (.procedure instruction)))
    (running : (final (guarded Host.ample (dispatch Host.ample instruction) machine)).SystemHalted = false) :
    ∃ later, SafeRun bc first later
      (resumed (begun (final (guarded Host.ample (dispatch Host.ample instruction) machine))) (.decided false)) := by
  have executed := run.step (.execute Host.ample rfl rfl) (fun _ _ _ => trivial) nofun
  obtain ⟨later, reached⟩ := executed.reaches_execute rfl running rfl rfl rfl rfl
  refine ⟨_, reached.step (.execute Host.ample rfl rfl) ?_ nofun⟩
  intro host inside step
  exact .inr (.inr (.inr ⟨false, rfl, fun _ => rfl⟩))

/-- After the stop is left, the breakpoint interruption is executed and the next instruction decided. -/
theorem safeRun_interrupted (bc : Calculator) : ∃ trace,
    SafeRun bc (start interrupting) trace (resumed (begun interrupted) (.decided false)) := by
  obtain ⟨trace, held⟩ := safeRun_atBios bc
  have continued := held.step (.continue_ _ rfl) (by intro host inside step; trivial) (by intro same; exact id)
  have left : SafeRun bc (start interrupting) _ (resumed interruptingFetched (.procedure breakpointInstruction)) :=
    continued.step (.execute Host.ample rfl rfl) (fun _ _ _ => trivial) nofun
  exact left.decides interrupted_running

/-- The breakpoint interruption: the handler is entered with the flag down. -/
theorem not_stops_hold_interruption :
    ¬ ∀ (bc : Calculator) (machine : Machine) (trace : List Event) (session : Session),
      Run bc (start machine) trace session → StopsHold trace := by
  intro every
  obtain ⟨trace, run⟩ := safeRun_interrupted numeralCalculator
  obtain ⟨machine, fetched⟩ := executeStep_raised numeralCalculator popInstruction_interrupted interrupted_raised
  have entry := run.run.step (.execute Host.ample rfl fetched)
  have entered := entry.step (.execute Host.ample rfl rfl)
  have flag := (every numeralCalculator interrupting _ _ entered).entered false (by simp [resumed, Server.attached])
  exact Bool.false_ne_true flag

end Session

end Sysdarft.Debugger
