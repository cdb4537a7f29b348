import Sysdarft.Model.Boot
import Sysdarft.Model.Construction
import Sysdarft.Proofs.ProcedureFaults
import Sysdarft.Proofs.SourceControl

/-! # Booting a compiled program

The constructor puts the file it is given at the address where the machine starts. So a program that was
compiled for this address is about to run its first chunk, and as long as no key is pressed and no device
asks for an interruption, the boot loop follows the lines of its source.
-/

namespace Sysdarft

open Effects

/-! ## The constructor -/

section Construction

variable {host : Host} {bios : List Byte} {hdd fda fdb : String} {memory : GuestMemory} {files : String → ImageFile}
  {machine : Machine}

theorem keeps_processor_addDevice (controller : Controller) : Keeps Machine.processor (addDevice controller) :=
  keeps_modify fun _ => rfl

theorem keeps_processor_attach (named : String) (drive : DiskDrive) (file_name : String) :
    Keeps Machine.processor (attach host named drive file_name) := by
  refine keeps_ite (keeps_ite (keeps_throw _) (keeps_ite (keeps_throw _) ?_)) (keeps_pure _)
  exact keeps_bind keeps_get fun _ => keeps_processor_addDevice _

theorem keeps_processor_addClock : Keeps Machine.processor (addClock host) :=
  keeps_ite (keeps_throw _) (keeps_processor_addDevice _)

/-- A write that succeeds replaces the bytes. -/
theorem writeMemory_eq_ok {address size : Word} {source : List Byte} {after : Machine} (length : source.length = size.toNat)
    (small : size.toNat < 2 ^ 63) (done : writeMemory address source size machine = .ok () after) :
    address.toNat + source.length ≤ machine.memory.total ∧ after = machine.overwrite address.toNat source := by
  rcases writeMemory_cases source length small with ⟨fine, -⟩ | ⟨trouble, -, failed⟩
  · rw [transferTrouble] at fine
    split_ifs at fine with outside atEnd
    have inside : address.toNat + size.toNat ≤ machine.memory.total := not_lt.mp outside
    have started : address.toNat < machine.memory.total := lt_of_le_of_ne (le_trans (Nat.le_add_right ..) inside) atEnd
    rw [writeMemory_started source inside started length] at done
    exact ⟨length ▸ inside, (EStateM.Result.ok.inj done).2.symm⟩
  · rw [done] at failed
    cases failed

/-- A constructed machine has the file at the address it starts at. -/
theorem construct_loaded (fits : bios.length ≤ BIOS_SIZE)
    (built : construct host bios hdd fda fdb (Machine.blank memory files) = .ok () machine) :
    machine.registers = Machine.powerOn.registers ∧ Coding.Loaded machine BIOS_START bios := by
  obtain ⟨⟨⟩, written, write, built⟩ := bind_eq_ok.mp built
  have rest : Keeps Machine.processor (do
      attach host hdd .hardDisk hdd
      attach host fda .floppyA fda
      attach host fdb .floppyB fda
      addClock host) :=
    keeps_bind (keeps_processor_attach hdd .hardDisk hdd) fun _ =>
      keeps_bind (keeps_processor_attach fda .floppyA fda) fun _ =>
        keeps_bind (keeps_processor_attach fdb .floppyB fda) fun _ => keeps_processor_addClock
  obtain ⟨registers, same⟩ := Prod.mk.inj (keeps_ok rest built)
  have size : (if bios.length > BIOS_SIZE then BIOS_SIZE else bios.length) = bios.length := if_neg (not_lt.mpr fits)
  have small : bios.length < 2 ^ 63 := lt_of_le_of_lt fits (by decide)
  have count : (BitVec.ofNat 64 bios.length).toNat = bios.length := by
    rw [BitVec.toNat_ofNat, Nat.mod_eq_of_lt (by omega)]
  rw [size] at write
  obtain ⟨inside, rfl⟩ := writeMemory_eq_ok count.symm (by rw [count]; exact small) write
  have place : (BitVec.ofNat 64 BIOS_START).toNat = BIOS_START := by decide
  rw [place] at inside same registers
  refine ⟨registers, ?_⟩
  have loaded : Coding.Loaded ((Machine.blank memory files).overwrite BIOS_START bios) BIOS_START bios := by
    have base : ((Machine.blank memory files).overwrite BIOS_START bios).registers.CodeBase.toNat + BIOS_START =
      BIOS_START :=
      Nat.zero_add _
    constructor
    · rw [base]
      exact inside
    · rw [base]
      exact (congrArg (fun view => FlatMemory.read view BIOS_START bios.length)
        (GuestMemory.peek_overwrite memory inside)).trans
        FlatMemory.read_write
  exact loaded.of_same (congrArg Registers.CodeBase registers) same

end Construction

/-! ## The boot loop -/

namespace System

/-- At the head of the loop, with no key pressed and no interruption asked for. -/
def resting (machine : Machine) : System := { start machine with machine := machine }

/-- A step of the boot thread. -/
def BootStep (host : Host) (system next : System) : Prop := ∃ label, system.bootStep host = some (label, next)

variable {host : Host} {machine : Machine}

/-- A turn of the loop is a step of the machine. -/
theorem resting_turn (awake : machine.SystemHalted = false) :
    Relation.ReflTransGen (BootStep host) (resting machine) (resting (final (execute host machine))) := by
  have head : (resting machine).bootStep host = some (.quiet, { resting machine with point := .capture }) := by
    rw [bootStep]
    exact if_neg (by rw [show (resting machine).machine = machine from rfl, awake]; decide)
  refine .head ⟨_, head⟩ ?_
  -- neither a key nor a request
  refine .head ⟨_, show bootStep host _ = some (.quiet, { resting machine with point := .lock }) from rfl⟩ ?_
  refine .head ⟨_, show bootStep host _ = some (.locked .boot,
    { resting machine with protector := some .boot, point := .request 0 }) from rfl⟩ ?_
  refine .head ⟨_, show bootStep host _ = some (.quiet,
    { resting machine with protector := some .boot, point := .clear }) from rfl⟩ ?_
  refine .head ⟨_, show bootStep host _ = some (.quiet,
    { resting machine with protector := some .boot, point := .unlock }) from rfl⟩ ?_
  refine .head ⟨_, show bootStep host _ = some (.unlocked .boot true,
    { resting machine with point := .shutdown }) from rfl⟩ ?_
  -- no shutdown either
  refine .head ⟨_, show bootStep host _ = some (.quiet, { resting machine with point := .execute }) from rfl⟩ ?_
  exact .single ⟨_, rfl⟩

end System

namespace Coding

section Boot

variable {host builder : Host} {env : Environment} {bc : Calculator} {verbose : Bool} {org steps chunk place : ℕ}
    {files : List FileAttr}
  {objects : List ObjectFile} {linked : ObjectFile} {memory : GuestMemory} {images : String → ImageFile}
    {hdd fda fdb : String}
  {machine next last : Machine}

/-- The loop comes to the end of the path, or to a machine that is halted before. -/
def FollowsTo (host : Host) (steps : ℕ) (machine last : Machine) : Prop :=
  ∃ turns reached, turns ≤ steps ∧ Executes host turns machine reached ∧
    Relation.ReflTransGen (System.BootStep host) (System.resting machine) (System.resting reached) ∧
    (reached = last ∨ reached.SystemHalted = true)

/-- A step of the machine, and what follows it. -/
theorem FollowsTo.step (executed : execute host machine = .ok () next) (rest : FollowsTo host steps next last) :
    FollowsTo host (steps + 1) machine last := by
  cases awake : machine.SystemHalted with
  | true => exact ⟨0, machine, Nat.zero_le _, rfl, .refl, .inr awake⟩
  | false =>
    have turn := @System.resting_turn host _ awake
    rw [executed] at turn
    obtain ⟨turns, reached, bound, later, run, ends⟩ := rest
    exact ⟨turns + 1, reached, Nat.succ_le_succ bound, ⟨next, executed, later⟩, turn.trans run, ends⟩

/-- The loop follows a path through the lines of the source. -/
theorem Path.follows (echoes : EchoesNumerals bc) (build : Build env bc verbose org files objects linked)
    (path : Path host bc org files linked.code.flatten steps machine chunk last place)
    (at_ : AtChunk org linked.code machine chunk) :
    FollowsTo host steps machine last ∧ AtChunk org linked.code last place := by
  induction path with
  | done machine chunk => exact ⟨⟨0, machine, le_refl _, rfl, .refl, .inl rfl⟩, at_⟩
  | straight line runs pointer kept rest ih =>
    obtain ⟨executed, next⟩ := at_.runs_straight build line runs pointer kept
    obtain ⟨later, arrives⟩ := ih next
    exact ⟨later.step executed, arrives⟩
  | branch line registered label rest ih =>
    obtain ⟨executed, next⟩ := at_.runs_branch echoes build line registered label
    obtain ⟨later, arrives⟩ := ih next
    exact ⟨later.step executed, arrives⟩

/-- A machine that is constructed with a file linked for its start is about to run the first chunk. -/
theorem start_atChunk (fits : (linkedWrite linked .bin).length ≤ BIOS_SIZE)
    (built : construct builder (linkedWrite linked .bin) hdd fda fdb (Machine.blank memory images) = .ok () machine) :
    AtChunk BIOS_START linked.code (System.start machine).machine 0 := by
  obtain ⟨registers, loaded⟩ := construct_loaded fits built
  exact ⟨loaded.of_same rfl rfl, congrArg Registers.InstructionPointer registers⟩

/-- From the start on the boot loop follows the lines of the source, unless the machine halts on the way. -/
theorem boot_follows (echoes : EchoesNumerals bc) (build : Build env bc verbose BIOS_START files objects linked)
    (fits : (linkedWrite linked .bin).length ≤ BIOS_SIZE)
    (built : construct builder (linkedWrite linked .bin) hdd fda fdb (Machine.blank memory images) = .ok () machine)
    (path : Path host bc BIOS_START files linked.code.flatten steps (System.start machine).machine 0 last place) :
    ∃ turns reached, turns ≤ steps ∧ Executes host turns (System.start machine).machine reached ∧
      Relation.ReflTransGen (System.BootStep host) (System.start machine) (System.resting reached) ∧
      (reached = last ∧ AtChunk BIOS_START linked.code last place ∨ reached.SystemHalted = true) := by
  obtain ⟨⟨turns, reached, bound, executes, run, ends⟩, arrives⟩ := path.follows echoes build (start_atChunk fits built)
  refine ⟨turns, reached, bound, executes, run, ?_⟩
  rcases ends with rfl | halted
  · exact .inl ⟨rfl, arrives⟩
  · exact .inr halted

end Boot

/-- A machine constructed with the program that spins, without drives. -/
theorem construct_spin : ∃ machine, construct Host.ample (linkedWrite spinLinked .bin) "" "" ""
    (Machine.blank GuestMemory.cleared fun _ => { size := 0, contents := fun _ => 0 }) = .ok () machine := by
  have inside : (BitVec.ofNat 64 BIOS_START).toNat + (BitVec.ofNat 64 15).toNat ≤ GuestMemory.cleared.total := by decide
  have written := @writeMemory_inside (Machine.blank GuestMemory.cleared fun _ => { size := 0, contents := fun _ => 0 })
    (BitVec.ofNat 64 BIOS_START) (BitVec.ofNat 64 15) (linkedWrite spinLinked .bin) inside (by decide) rfl
  exact ⟨_, bind_ok written⟩

/-- The boot loop comes back to the first line of the program in two turns. -/
theorem boot_follows_spin : ∃ machine last, construct Host.ample (linkedWrite spinLinked .bin) "" "" ""
      (Machine.blank GuestMemory.cleared fun _ => { size := 0, contents := fun _ => 0 }) = .ok () machine ∧
    ∃ turns reached, turns ≤ 2 ∧ Executes Host.ample turns (System.start machine).machine reached ∧
      Relation.ReflTransGen (System.BootStep Host.ample) (System.start machine) (System.resting reached) ∧
      (reached = last ∧ AtChunk BIOS_START spinLinked.code last 0 ∨ reached.SystemHalted = true) := by
  obtain ⟨machine, built⟩ := construct_spin
  have fits : (linkedWrite spinLinked .bin).length ≤ BIOS_SIZE := by decide
  have at_ := start_atChunk fits built
  exact ⟨machine, _, built, boot_follows numeralCalculator_echoes build_spin fits built
    (.straight sourceLine_spin rfl rfl (at_.loaded.of_same rfl rfl)
      (.branch branchLine_spin trivial labelAt_spin (.done _ _)))⟩

end Coding

end Sysdarft
