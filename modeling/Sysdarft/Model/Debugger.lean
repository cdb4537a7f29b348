import Sysdarft.Coding.EncodeTarget
import Sysdarft.Model.Boot
import Sysdarft.Model.DebuggerOperand

/-! # The remote debugger

`RemoteDebugServer` is asked before every instruction whether to stop (`if_breakpoint`), and holds the
boot thread in `at_breakpoint` as long as `breakpoint_triggered` is set. Its request handlers run in
other threads. Here `execute` is cut at the points where a request can come in between: the decision,
the fetch, the entry to `at_breakpoint`, the wait, and the procedure of the instruction.

The body of a request handler is one step. The addresses of a breakpoint request, which `bc`
computes from its texts, are taken as numbers; the answers that are sent back are left out.
-/

namespace Sysdarft.Debugger

open Coding

/-- What can go wrong in the evaluation of a condition or a watch. -/
inductive DebugError where
  | coding (cause : CodingError)
  | fault (cause : Fault)

/-! ## Conditions -/

/-- `ConditionalTargetExpression`; `absent` is the null pointer. -/
inductive Condition where
  | absent
  | valEqual (EncodedTgExp1 EncodedTgExp2 : List Byte)
  | and (ComplexTgExp1 ComplexTgExp2 : Condition)
  | or (ComplexTgExp1 ComplexTgExp2 : Condition)
  | not (ComplexTgExp1 ComplexTgExp2 : Condition)
deriving DecidableEq, Repr

def skipWhitespace (input : List Char) : List Char := input.dropWhile Numerals.isSpace

/-- `match`: the rest of the input after a keyword. -/
def matchKeyword (keyword input : List Char) : Option (List Char) :=
  if keyword.isPrefixOf (skipWhitespace input) then some ((skipWhitespace input).drop keyword.length) else none

/-- `processTgExp`: the content of angle brackets around the whole expression. -/
def processTgExp (exp : List Char) : List Char :=
  match exp with
  | '<' :: inner =>
    if inner.getLast? = some '>' ∧ '>' ∉ inner.dropLast then inner.dropLast else exp
  | _ => exp

/-- The loop of `parseUntilCommaOrParen` and `parseUntilParen`: up to a delimiter outside angle brackets. -/
def takeUntil (delimiters : List Char) (angleCount : ℤ) : List Char → List Char × List Char
  | [] => ([], [])
  | c :: rest =>
    let angleCount := if c = '<' then angleCount + 1 else if c = '>' then angleCount - 1 else angleCount
    if angleCount = 0 ∧ c ∈ delimiters then ([], c :: rest)
    else
      let (taken, left) := takeUntil delimiters angleCount rest
      (c :: taken, left)

def parseUntilCommaOrParen (input : List Char) : List Char × List Char :=
  let (result, rest) := takeUntil [',', ')'] 0 (skipWhitespace input)
  (processTgExp result, rest)

def parseUntilParen (input : List Char) : List Char × List Char :=
  let (result, rest) := takeUntil [')'] 0 (skipWhitespace input)
  (processTgExp result, rest)

/-- `if (input[pos] == c) pos++`. -/
def consume (c : Char) (input : List Char) : List Char :=
  if input.head? = some c then input.tail else input

/-- `parseValEqual`. -/
def parseValEqual (bc : Calculator) (input : List Char) : Except CodingError (Condition × List Char) := do
  let (TgExp1, rest) := parseUntilCommaOrParen input
  let (TgExp2, rest) := parseUntilParen (consume ',' rest)
  let (_, EncodedTgExp1) ← encodeTarget bc (capitalization (removeSpace TgExp1))
  let (_, EncodedTgExp2) ← encodeTarget bc (capitalization (removeSpace TgExp2))
  return (.valEqual EncodedTgExp1 EncodedTgExp2, consume ')' rest)

/-- `parseExpression` and `parseLogical`. Every nested expression is shorter than its parent, so the length
of the text is enough fuel. -/
def parseExpression (bc : Calculator) : ℕ → List Char → Except CodingError (Condition × List Char)
  | 0, input => return (.absent, input)
  | fuel + 1, input =>
    let parseLogical (node : Condition → Condition → Condition) (input : List Char) :
        Except CodingError (Condition × List Char) := do
      let (ComplexTgExp1, rest) ← parseExpression bc fuel input
      let (ComplexTgExp2, rest) ← parseExpression bc fuel (consume ',' (skipWhitespace rest))
      return (node ComplexTgExp1 ComplexTgExp2, consume ')' (skipWhitespace rest))
    match matchKeyword "valequal(".toList input with
    | some rest => parseValEqual bc rest
    | none =>
      match matchKeyword "and(".toList input with
      | some rest => parseLogical .and rest
      | none =>
        match matchKeyword "or(".toList input with
        | some rest => parseLogical .or rest
        | none =>
          match matchKeyword "not(".toList input with
          | some rest => parseLogical .not rest
          | none => return (.absent, skipWhitespace input)

/-- `absolute_target_access`. -/
def absoluteTargetAccess (machine : Machine) (binary : List Byte) : Except DebugError Word :=
  match (do getVal (← operandType binary)) machine with
  | .ok value _ => .ok value
  | .error fault _ => .error (.fault fault)

/-- `check_one_level_of_condition`; both sides are always evaluated. -/
def checkOneLevelOfCondition (machine : Machine) : Condition → Except DebugError Bool
  | .absent => return true
  | .valEqual EncodedTgExp1 EncodedTgExp2 => do
    let data1 ← absoluteTargetAccess machine EncodedTgExp1
    let data2 ← absoluteTargetAccess machine EncodedTgExp2
    return data1 == data2
  | .and first second => do
    let data1 ← checkOneLevelOfCondition machine first
    let data2 ← checkOneLevelOfCondition machine second
    return data1 && data2
  | .or first second => do
    let data1 ← checkOneLevelOfCondition machine first
    let data2 ← checkOneLevelOfCondition machine second
    return data1 || data2
  | .not first second => do
    let data1 ← checkOneLevelOfCondition machine first
    let _ ← checkOneLevelOfCondition machine second
    return !data1

def isConditionMet (bc : Calculator) (machine : Machine) (condition : List Char) : Except DebugError Bool :=
  if condition = [] then return true
  else match parseExpression bc (condition.length + 1) condition with
  | .ok (root, _) => checkOneLevelOfCondition machine root
  | .error cause => throw (.coding cause)

/-! ## The decision -/

/-- The fields of `RemoteDebugServer` that decide about stops. -/
structure Server where
  /-- `breakpoint_list`, in the order of its keys `(CB, IP)`. -/
  breakpoint_list : List ((Word × Word) × List Char)
  watch_list : List (List Byte × Word)
  skip_bios_ip_check : Bool
  breakpoint_triggered : Bool
  manual_stop : Bool
  stepi : Bool

/-- A server right after its construction. -/
def Server.attached : Server where
  breakpoint_list := []
  watch_list := []
  skip_bios_ip_check := false
  breakpoint_triggered := false
  manual_stop := false
  stepi := false

/-- The loop over the breakpoints: whether one of them stops here. -/
def breakpointHere (bc : Calculator) (machine : Machine) : List ((Word × Word) × List Char) → Except DebugError Bool
  | [] => return false
  | (breakpoint, condition) :: rest =>
    if machine.registers.CodeBase + machine.registers.InstructionPointer = breakpoint.1 + breakpoint.2 then do
      if ← isConditionMet bc machine condition then return true else breakpointHere bc machine rest
    else breakpointHere bc machine rest

/-- The loop over the watches: the list with the values seen, whether one of them changed, and the error
that ended the loop. -/
def scanWatches (machine : Machine) : List (List Byte × Word) → List (List Byte × Word) × Bool × Option DebugError
  | [] => ([], false, none)
  | (target, last) :: rest =>
    match absoluteTargetAccess machine target with
    | .error cause => ((target, last) :: rest, false, some cause)
    | .ok data =>
      let (seen, is_hit, failure) := scanWatches machine rest
      ((target, data) :: seen, data != last || is_hit, failure)

/-- `if_breakpoint`. The handler around it returns true and leaves the flag as it is at that time. -/
def ifBreakpoint (bc : Calculator) (machine : Machine) (server : Server) : Bool × Server :=
  let server := { server with breakpoint_triggered := false }
  if server.stepi then (true, { server with breakpoint_triggered := true })
  else if server.manual_stop then (true, { server with breakpoint_triggered := true, manual_stop := false })
  else if !server.skip_bios_ip_check &&
      machine.registers.InstructionPointer + machine.registers.CodeBase == BitVec.ofNat 64 BIOS_START then
    (true, { server with skip_bios_ip_check := true, breakpoint_triggered := true })
  else
    match breakpointHere bc machine server.breakpoint_list with
    | .error _ => (true, server)
    | .ok true => (true, { server with breakpoint_triggered := true })
    | .ok false =>
      match scanWatches machine server.watch_list with
      | (watch_list, _, some _) => (true, { server with watch_list := watch_list })
      | (watch_list, is_hit, none) =>
        (is_hit, { server with watch_list := watch_list, breakpoint_triggered := is_hit })

/-! ## Requests -/

/-- The requests of a client that change the server or the machine. -/
inductive Request where
  /-- `/Continue`, and `continue` on the socket. -/
  | continue_
  /-- `B` of `/Action`. -/
  | breakNext
  /-- `S` of `/Action`, with both operands encoded. -/
  | setValue (operand1 operand2 : List Byte)
  /-- `/Stepi`. -/
  | stepi (on : Bool)
  /-- `/SetBreakpoint`; the condition `DELETE` removes a breakpoint. -/
  | setBreakpoint (CB IP : Word) (condition : List Char)
  /-- `/Watcher`. -/
  | watch (expression : List Char)

/-- `breakpoint_list[key] = condition`. -/
def assignBreakpoint (key : Word × Word) (condition : List Char) :
    List ((Word × Word) × List Char) → List ((Word × Word) × List Char)
  | [] => [(key, condition)]
  | (other, old) :: rest =>
    if other = key then (key, condition) :: rest
    else if key.1 < other.1 ∨ key.1 = other.1 ∧ key.2 < other.2 then (key, condition) :: (other, old) :: rest
    else (other, old) :: assignBreakpoint key condition rest

/-- The sanity check of a condition. -/
def acceptsCondition (bc : Calculator) (condition : List Char) : Bool :=
  condition == [] ||
    match parseExpression bc (condition.length + 1) condition with
    | .ok _ => true
    | .error _ => false

/-- What a request does to the server. -/
def Server.serve (bc : Calculator) (server : Server) : Request → Server
  | .continue_ =>
    if server.breakpoint_triggered then { server with breakpoint_triggered := false, manual_stop := false } else server
  | .breakNext => { server with manual_stop := true }
  | .setValue _ _ => server
  | .stepi on => { server with stepi := on }
  | .setBreakpoint CB IP condition =>
    if capitalization condition = "DELETE".toList then
      { server with breakpoint_list := server.breakpoint_list.eraseP fun entry => entry.1.1 + entry.1.2 == IP + CB }
    else if acceptsCondition bc condition then
      { server with breakpoint_list := assignBreakpoint (CB, IP) condition server.breakpoint_list }
    else server
  | .watch expression =>
    let expression := capitalization (expression.filter fun c => !Numerals.isSpace c)
    match encodeTarget bc (expression.filter fun c => c != '<' && c != '>') with
    | .ok (_, target_byte_code) => { server with watch_list := server.watch_list ++ [(target_byte_code, 0)] }
    | .error _ => server

/-- What a request does to the machine: only `S` changes it, and only during a stop. -/
def Server.act (server : Server) (machine : Machine) : Request → Machine
  | .setValue operand1 operand2 =>
    if server.breakpoint_triggered then
      Effects.final ((do
        let first ← operandType operand1
        let second ← operandType operand2
        setVal (← getVal second) first : CPU Unit) machine)
    else machine
  | _ => machine

/-! ## Execution under the debugger -/

/-- Where the boot thread is in `execute`. -/
inductive Phase where
  /-- before `is_break_here` -/
  | begin
  /-- before the fetch, with the decision -/
  | decided (breakpoint_reached : Bool)
  /-- before the call of `breakpoint_handler` -/
  | entry (instruction : ActiveInstruction)
  /-- in the loop of `at_breakpoint` -/
  | waiting (instruction : ActiveInstruction)
  /-- before the procedure of the instruction -/
  | procedure (instruction : ActiveInstruction)

/-- The threads of the machine with an attached debugger. -/
structure Session where
  system : System
  server : Server
  phase : Phase

/-- What a step shows. -/
inductive Event where
  | quiet
  /-- `at_breakpoint` is entered, with the flag as it is. -/
  | entered (breakpoint_triggered : Bool)
  | executed
  /-- a request to continue is accepted -/
  | continued
deriving DecidableEq, Repr

namespace Session

/-- The boot thread leaves `execute`, normally or with an exception that `Boot` prints. -/
def finish (session : Session) (machine : Machine) : Session :=
  { session with system := { session.system with machine := machine, point := .loop }, phase := .begin }

/-- A step of the boot thread inside `execute`; none while it is held in `at_breakpoint`. -/
def executeStep (bc : Calculator) (host : Host) (session : Session) : Option (Event × Session) :=
  let machine := session.system.machine
  match session.phase with
  | .begin =>
    let machine := { machine with ip_before_pop := machine.registers.InstructionPointer }
    let (breakpoint_reached, server) := ifBreakpoint bc machine session.server
    some (.quiet, { session with
      system := { session.system with machine := machine }, server := server, phase := .decided breakpoint_reached })
  | .decided breakpoint_reached =>
    match popInstruction machine with
    | .error fault after => some (.quiet, session.finish (Effects.final (guarded host (throw fault) after)))
    | .ok instruction after =>
      let after := { after with
        current_routine_pop_len := after.registers.InstructionPointer - after.ip_before_pop }
      if after.Int3DebugInterrupt || breakpoint_reached then
        some (.quiet, { session with
          system := { session.system with machine := { after with Int3DebugInterrupt := false } }
          phase := .entry instruction })
      else some (.quiet, { session with
        system := { session.system with machine := after }, phase := .procedure instruction })
  | .entry instruction =>
    some (.entered session.server.breakpoint_triggered, { session with phase := .waiting instruction })
  | .waiting instruction =>
    if session.server.breakpoint_triggered then none
    else some (.quiet, { session with phase := .procedure instruction })
  | .procedure instruction =>
    some (.executed, session.finish (Effects.final (guarded host (dispatch host instruction) machine)))

/-- One step of any thread. -/
inductive Step (bc : Calculator) : Session → Event → Session → Prop where
  /-- the boot thread outside `execute` -/
  | boot {session : Session} {label : Label} {next : System} (host : Host) (outside : session.system.point ≠ .execute)
      (step : session.system.bootStep host = some (label, next)) : Step bc session .quiet { session with system := next }
  | execute {session next : Session} {event : Event} (host : Host) (inside : session.system.point = .execute)
      (step : session.executeStep bc host = some (event, next)) : Step bc session event next
  | call {session : Session} {label : Label} {next : System} (code : Word)
      (step : session.system.deviceCall code = some (label, next)) : Step bc session .quiet { session with system := next }
  | device {session : Session} {label : Label} {next : System} (index : ℕ)
      (step : session.system.deviceStep index = some (label, next)) : Step bc session .quiet { session with system := next }
  | key (session : Session) (key : System.ControlKey) :
      Step bc session .quiet { session with system := session.system.press key }
  | continue_ (session : Session) (stopped : session.server.breakpoint_triggered = true) :
      Step bc session .continued { session with server := session.server.serve bc .continue_ }
  | request (session : Session) (request : Request) (other : request ≠ .continue_) :
      Step bc session .quiet { session with
        system := { session.system with machine := session.server.act session.system.machine request }
        server := session.server.serve bc request }

/-- A machine at the start of `Boot` with a debugger attached. -/
def start (machine : Machine) : Session where
  system := System.start machine
  server := Server.attached
  phase := .begin

/-- The runs from a state, with the events of their steps in order. -/
inductive Run (bc : Calculator) (first : Session) : List Event → Session → Prop where
  | start : Run bc first [] first
  | step {trace : List Event} {session next : Session} {event : Event} (earlier : Run bc first trace session)
      (step : Step bc session event next) : Run bc first (trace ++ [event]) next

end Session

end Sysdarft.Debugger
