import Sysdarft.Model.Debugger

/-! # Deleted breakpoints

A breakpoint is stored under its pair of code base and instruction pointer, but the decision to stop and the
deletion only look at the sum. Several pairs can stand for one address, and a deletion removes the first of them.
-/

namespace Sysdarft.Debugger

open Coding

/-- The linear address of a stored breakpoint. -/
def linearAddress (entry : (Word × Word) × List Char) : Word := entry.1.1 + entry.1.2

/-- A breakpoint is stored for an address. -/
def standsFor (address : Word) (entry : (Word × Word) × List Char) : Bool := linearAddress entry == address

/-- The address the machine is at. -/
def currentAddress (machine : Machine) : Word := machine.registers.CodeBase + machine.registers.InstructionPointer

/-- The breakpoints that are stored for an address. -/
def Server.breakpointsAt (server : Server) (address : Word) : List ((Word × Word) × List Char) :=
  server.breakpoint_list.filter (standsFor address)

/-- The server after requests. -/
def Server.serveAll (bc : Calculator) (server : Server) (requests : List Request) : Server :=
  requests.foldl (Server.serve bc) server

namespace Request

/-- A request to delete the breakpoint at an address. -/
def Deletes (request : Request) (address : Word) : Prop :=
  ∃ CB IP condition, request = .setBreakpoint CB IP condition ∧ capitalization condition = "DELETE".toList ∧
    CB + IP = address

/-- A request to set a breakpoint at an address. -/
def Sets (request : Request) (address : Word) : Prop :=
  ∃ CB IP condition, request = .setBreakpoint CB IP condition ∧ capitalization condition ≠ "DELETE".toList ∧
    CB + IP = address

end Request

/-- No breakpoint is stored for an address, and none stops there. -/
structure Gone (bc : Calculator) (server : Server) (address : Word) : Prop where
  unlisted : server.breakpointsAt address = []
  silent : ∀ machine, currentAddress machine = address → breakpointHere bc machine server.breakpoint_list = .ok false

/-! ## The list -/

section Lists

variable {bc : Calculator} {machine : Machine} {address : Word}
variable {list list' : List ((Word × Word) × List Char)}

/-- Only the breakpoints for the current address are looked at. -/
theorem breakpointHere_filter (machine : Machine) (list : List ((Word × Word) × List Char)) :
    breakpointHere bc machine list = breakpointHere bc machine (list.filter (standsFor (currentAddress machine))) := by
  induction list with
  | nil => rfl
  | cons entry rest ih =>
    by_cases here : standsFor (currentAddress machine) entry = true
    · rw [List.filter_cons_of_pos here, breakpointHere, breakpointHere, ih]
    · have elsewhere : ¬ machine.registers.CodeBase + machine.registers.InstructionPointer = entry.1.1 + entry.1.2 :=
        fun same => here (beq_iff_eq.mpr same.symm)
      rw [List.filter_cons_of_neg here, breakpointHere, ih, if_neg elsewhere]

/-- Two lists with the same breakpoints for the current address stop alike. -/
theorem breakpointHere_congr
    (same : list.filter (standsFor (currentAddress machine)) = list'.filter (standsFor (currentAddress machine))) :
    breakpointHere bc machine list = breakpointHere bc machine list' := by
  rw [breakpointHere_filter, same, ← breakpointHere_filter]

/-- A deletion removes the first breakpoint for the address. -/
theorem filter_eraseP (list : List ((Word × Word) × List Char)) (address : Word) :
    (list.eraseP (standsFor address)).filter (standsFor address) = (list.filter (standsFor address)).tail := by
  induction list with
  | nil => rfl
  | cons entry rest ih =>
    by_cases here : standsFor address entry = true
    · rw [List.eraseP_cons_of_pos here, List.filter_cons_of_pos here, List.tail_cons]
    · rw [List.eraseP_cons_of_neg here, List.filter_cons_of_neg here, List.filter_cons_of_neg here, ih]

theorem filter_eraseP_other (list : List ((Word × Word) × List Char)) {address other : Word} (differs : other ≠ address) :
    (list.eraseP (standsFor address)).filter (standsFor other) = list.filter (standsFor other) := by
  induction list with
  | nil => rfl
  | cons entry rest ih =>
    by_cases here : standsFor address entry = true
    · have elsewhere : ¬ standsFor other entry = true := by
        rw [standsFor, beq_iff_eq] at here ⊢
        exact fun same => differs (same.symm.trans here)
      rw [List.eraseP_cons_of_pos here, List.filter_cons_of_neg elsewhere]
    · rw [List.eraseP_cons_of_neg here, List.filter_cons, List.filter_cons, ih]

/-- A breakpoint that is set leaves other addresses alone. -/
theorem filter_assignBreakpoint {key : Word × Word} {condition : List Char} (elsewhere : key.1 + key.2 ≠ address) :
    (assignBreakpoint key condition list).filter (standsFor address) = list.filter (standsFor address) := by
  have absent : ¬ standsFor address (key, condition) = true := by
    rw [standsFor, beq_iff_eq]
    exact elsewhere
  induction list with
  | nil => exact List.filter_cons_of_neg absent
  | cons entry rest ih =>
    rw [assignBreakpoint]
    split_ifs with same before
    · have old : ¬ standsFor address entry = true := by
        rw [standsFor, beq_iff_eq, linearAddress, same]
        exact elsewhere
      rw [List.filter_cons_of_neg absent, List.filter_cons_of_neg old]
    · rw [List.filter_cons_of_neg absent]
    · rw [List.filter_cons, List.filter_cons, ih]

end Lists

/-! ## Requests -/

section Requests

variable {bc : Calculator} {server : Server} {request : Request} {address : Word}

/-- A deletion, by its address. -/
theorem serve_delete (deletes : request.Deletes address) :
    (server.serve bc request).breakpoint_list =
      server.breakpoint_list.eraseP (standsFor address) := by
  obtain ⟨CB, IP, condition, rfl, delete, rfl⟩ := deletes
  rw [Server.serve, if_pos delete, BitVec.add_comm CB IP]
  rfl

/-- A request that sets nothing at an address adds nothing there. -/
theorem serve_unset (unset : ¬ request.Sets address) (none : server.breakpointsAt address = []) :
    (server.serve bc request).breakpointsAt address = [] := by
  cases request with
  | continue_ =>
    rw [Server.serve]
    split_ifs
    · exact none
    · exact none
  | breakNext => exact none
  | setValue operand1 operand2 => exact none
  | stepi on => exact none
  | setBreakpoint CB IP condition =>
    rw [Server.serve]
    split_ifs with delete accepted
    · rw [Server.breakpointsAt, List.filter_eq_nil_iff] at none ⊢
      exact fun entry member => none entry (List.mem_of_mem_eraseP member)
    · have elsewhere : CB + IP ≠ address := fun same => unset ⟨CB, IP, condition, rfl, delete, same⟩
      exact (filter_assignBreakpoint elsewhere).trans none
    · exact none
  | watch expression =>
    rw [Server.serve]
    split
    · exact none
    · exact none

/-- Nothing comes back while nothing is set. -/
theorem serveAll_unset {requests : List Request} (unset : ∀ request ∈ requests, ¬ request.Sets address)
    (none : server.breakpointsAt address = []) : (server.serveAll bc requests).breakpointsAt address = [] := by
  induction requests generalizing server with
  | nil => exact none
  | cons request requests ih =>
    obtain ⟨first, later⟩ := List.forall_mem_cons.mp unset
    exact ih later (serve_unset first none)

/-- Nothing is stored for the address: nothing stops there. -/
theorem gone_iff : Gone bc server address ↔ server.breakpointsAt address = [] := by
  refine ⟨Gone.unlisted, fun none => ⟨none, fun machine here => ?_⟩⟩
  rw [breakpointHere_filter, here]
  rw [Server.breakpointsAt] at none
  rw [none]
  rfl

/-- A deletion in any history: the breakpoint stays gone until it is set again, and the other addresses are
unaffected, exactly when one pair was stored for the address. -/
theorem deleted_gone_iff (bc : Calculator) (server : Server) (earlier : List Request) {delete : Request} {address : Word}
    (deletes : delete.Deletes address) (found : (server.serveAll bc earlier).breakpointsAt address ≠ []) :
    (∀ later : List Request, (∀ request ∈ later, ¬ request.Sets address) →
        Gone bc (server.serveAll bc (earlier ++ delete :: later)) address) ∧
      (∀ machine, currentAddress machine ≠ address →
        breakpointHere bc machine (server.serveAll bc (earlier ++ [delete])).breakpoint_list =
          breakpointHere bc machine (server.serveAll bc earlier).breakpoint_list) ↔
      ((server.serveAll bc earlier).breakpointsAt address).length = 1 := by
  have after (later : List Request) :
      server.serveAll bc (earlier ++ delete :: later) =
        ((server.serveAll bc earlier).serve bc delete).serveAll bc later := by
    rw [Server.serveAll, List.foldl_append]
    rfl
  have left : ((server.serveAll bc earlier).serve bc delete).breakpointsAt address =
      ((server.serveAll bc earlier).breakpointsAt address).tail := by
    rw [Server.breakpointsAt, serve_delete deletes]
    exact filter_eraseP _ address
  constructor
  · rintro ⟨gone, -⟩
    have nothing := (gone [] (fun request member => absurd member List.not_mem_nil)).unlisted
    rw [after] at nothing
    have rest : ((server.serveAll bc earlier).breakpointsAt address).tail = [] := left.symm.trans nothing
    have positive := List.length_pos_iff.mpr found
    have shorter := congrArg List.length rest
    rw [List.length_tail, List.length_nil] at shorter
    omega
  · intro single
    constructor
    · intro later unset
      rw [after, gone_iff]
      refine serveAll_unset unset (left.trans (List.eq_nil_of_length_eq_zero ?_))
      rw [List.length_tail, single]
    · intro machine elsewhere
      rw [after]
      refine breakpointHere_congr ?_
      change (((server.serveAll bc earlier).serve bc delete).breakpoint_list.filter _) = _
      rw [serve_delete deletes]
      exact filter_eraseP_other _ elsewhere

/-- A breakpoint at 0x10 that is set and deleted is gone, though another one is set behind it. -/
theorem deleted_gone_once :
    Gone (fun _ => ⟨[], [], 0⟩)
      (Server.attached.serveAll (fun _ => ⟨[], [], 0⟩)
        [.setBreakpoint 0 0x10 [], .setBreakpoint 0 0x10 "delete".toList, .setBreakpoint 0 0x20 []]) 0x10 := by
  have deletes : (Request.setBreakpoint 0 0x10 "delete".toList).Deletes 0x10 :=
    ⟨0, 0x10, "delete".toList, rfl, by decide, by decide⟩
  have once := (deleted_gone_iff (fun _ => ⟨[], [], 0⟩) Server.attached [.setBreakpoint 0 0x10 []] deletes
    (by decide)).mpr (by decide)
  refine once.1 [.setBreakpoint 0 0x20 []] fun request member => ?_
  rw [List.mem_singleton.mp member]
  rintro ⟨CB, IP, condition, same, -, address⟩
  cases same
  exact absurd address (by decide)

/-- Set under two pairs and deleted once, a breakpoint still stops. -/
theorem not_gone_twice :
    let requests := [Request.setBreakpoint 0 0x10 [], Request.setBreakpoint 0x10 0 [],
      Request.setBreakpoint 0 0x10 "DELETE".toList]
    let machine := { Machine.powerOn with
      registers := { Machine.powerOn.registers with CodeBase := 0, InstructionPointer := 0x10 } }
    (Request.setBreakpoint 0 0x10 "DELETE".toList).Deletes (currentAddress machine) ∧
      (Server.attached.serveAll (fun _ => ⟨[], [], 0⟩) (requests.take 2)).breakpointsAt (currentAddress machine) ≠ [] ∧
      breakpointHere (fun _ => ⟨[], [], 0⟩) machine
        (Server.attached.serveAll (fun _ => ⟨[], [], 0⟩) requests).breakpoint_list = .ok true :=
  ⟨⟨0, 0x10, "DELETE".toList, rfl, by decide, by decide⟩, by decide, by rfl⟩

end Requests

end Sysdarft.Debugger
