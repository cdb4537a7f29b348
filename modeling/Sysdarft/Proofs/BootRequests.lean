import Sysdarft.Model.Boot
import Sysdarft.Proofs.Interruption

/-! # External interruption requests

What the boot loop makes of the requests of devices, over every interleaving of the threads. As long
as no delivery between the start of an iteration and the release of the mutex runs out of stack, each
request that was appended is passed on once and in order, the queue is empty and the request flag is
down when the mutex is released, and nobody releases a mutex that it does not hold. An abort before
the mutex is taken, or inside the loop over the requests, breaks this.
-/

namespace Sysdarft

open Effects

/-! ## Traces -/

def Label.appendedCode : Label → Option Word
  | appended code => some code
  | _ => none

def Label.passedCode : Label → Option Word
  | passed code => some code
  | _ => none

def Label.isLock : Label → Bool
  | locked _ => true
  | _ => false

def Label.isUnlock : Label → Bool
  | unlocked _ _ => true
  | _ => false

/-- Between the lock and the unlock of the boot thread. -/
def BootPoint.inSection : BootPoint → Bool
  | request _ | served _ | clear | unlock => true
  | _ => false

namespace System

/-- The requests that were appended, in order. -/
def appended (trace : List Label) : List Word := trace.filterMap Label.appendedCode

/-- The requests that were passed to `do_interruption`, in order. -/
def passed (trace : List Label) : List Word := trace.filterMap Label.passedCode

/-- How often the mutex was locked. -/
def locks (trace : List Label) : ℕ := trace.countP Label.isLock

/-- How often it was unlocked. -/
def unlocks (trace : List Label) : ℕ := trace.countP Label.isUnlock

@[simp] theorem appended_snoc (trace : List Label) (label : Label) :
    appended (trace ++ [label]) = appended trace ++ label.appendedCode.toList := by
  cases known : label.appendedCode <;> simp [appended, known]

@[simp] theorem passed_snoc (trace : List Label) (label : Label) :
    passed (trace ++ [label]) = passed trace ++ label.passedCode.toList := by
  cases known : label.passedCode <;> simp [passed, known]

@[simp] theorem locks_snoc (trace : List Label) (label : Label) :
    locks (trace ++ [label]) = locks trace + label.isLock.toNat := by
  cases known : label.isLock <;> simp [locks, known]

@[simp] theorem unlocks_snoc (trace : List Label) (label : Label) :
    unlocks (trace ++ [label]) = unlocks trace + label.isUnlock.toNat := by
  cases known : label.isUnlock <;> simp [unlocks, known]

/-- The requests that were appended since the boot thread last released the mutex. -/
def appendedSince (trace : List Label) : List Word :=
  trace.foldl (fun codes label =>
    match label with
    | .unlocked .boot _ => []
    | .appended code => codes ++ [code]
    | _ => codes) []

@[simp] theorem appendedSince_snoc (trace : List Label) (label : Label) :
    appendedSince (trace ++ [label]) =
      match label with
      | .unlocked .boot _ => []
      | .appended code => appendedSince trace ++ [code]
      | _ => appendedSince trace := by
  simp only [appendedSince, List.foldl_append, List.foldl_cons, List.foldl_nil]

/-- The requests in the queue that were not passed on yet. -/
def pending (system : System) : List Word :=
  match system.point with
  | .request index => system.interruption_requests.drop index
  | .served index => system.interruption_requests.drop (index + 1)
  | .clear => []
  | _ => system.interruption_requests

/-- The delivery that the boot thread is about to make, before it releases the mutex, has room on the
stack or is masked. -/
def DeliveryFits (system : System) : Prop :=
  match system.point with
  | .keyboard => system.machine.FrameFits
  | .request _ =>
    getFlag system.machine.registers.FlagRegister .interruptionMask = true ∨ system.machine.FrameFits
  | _ => True

/-- Every appended request was passed on once or is still waiting, and the mutex was used properly. -/
structure Accounted (trace : List Label) (system : System) : Prop where
  once : passed trace ++ system.pending = appended trace
  balanced : locks trace = unlocks trace + system.protector.toList.length
  held : ∀ thread, Label.unlocked thread false ∉ trace
  /-- From the release in one iteration to the lock in the next the queue holds only what was appended
  since. In particular it is empty when the mutex is released. -/
  since : system.point.inSection = false → system.interruption_requests = appendedSince trace

/-! ## The invariant -/

/-- A code that `do_ext_dev_interruption` accepts. -/
def RequestCode (code : Word) : Prop := 0x1F < code.toNat ∧ code.toNat ≤ 0xFF

/-- The request flag while the boot thread is outside its section: it says whether the queue holds
anything, unless a device has appended and not raised it yet. -/
def DeviceFlag (system : System) : Prop :=
  match system.calls with
  | [] => system.external_device_requested = !system.interruption_requests.isEmpty
  | call :: _ =>
    match call.point with
    | .emplace => system.external_device_requested = !system.interruption_requests.isEmpty
    | .raise => system.interruption_requests.isEmpty = false
    | .unlock => system.external_device_requested = true ∧ system.interruption_requests.isEmpty = false

/-- The request flag inside the section: up until the first request was served. -/
def FlagMatches (system : System) : Prop :=
  match system.point with
  | .request index =>
    system.external_device_requested = (decide (index = 0) && !system.interruption_requests.isEmpty)
  | .served _ => True
  | .clear | .unlock => system.external_device_requested = false
  | _ => system.DeviceFlag

/-- The invariant of runs in which no delivery before a release aborts. -/
structure Orderly (system : System) : Prop where
  codes : ∀ code ∈ system.interruption_requests, RequestCode code
  calls : ∀ call ∈ system.calls, RequestCode call.code
  alone : system.calls.length ≤ 1
  device : system.protector = some .device ↔ system.calls ≠ []
  boot : system.protector = some .boot ↔ system.point.inSection = true
  flag : system.FlagMatches
  emptied : system.point = .unlock → system.interruption_requests = []
  unaborted : system.point ≠ .handler

variable {system next : System} {trace : List Label}

theorem pending_outside (outside : system.point.inSection = false) : system.pending = system.interruption_requests := by
  cases place : system.point <;> rw [place] at outside <;> simp_all [pending, BootPoint.inSection]

theorem flagMatches_outside (outside : system.point.inSection = false) : system.FlagMatches ↔ system.DeviceFlag := by
  cases place : system.point <;> rw [place] at outside <;> simp_all [FlagMatches, BootPoint.inSection]

/-- What the queue and the mutex are. -/
structure SameQueue (system next : System) : Prop where
  requests : next.interruption_requests = system.interruption_requests
  external : next.external_device_requested = system.external_device_requested
  protector : next.protector = system.protector
  calls : next.calls = system.calls

/-- Outside its section the boot thread may go anywhere but to the abort handler. -/
theorem Orderly.move (orderly : system.Orderly) (same : SameQueue system next)
    (outside : system.point.inSection = false) (stays : next.point.inSection = false)
    (unaborted : next.point ≠ .handler) : next.Orderly where
  codes := by rw [same.requests]; exact orderly.codes
  calls := by rw [same.calls]; exact orderly.calls
  alone := by rw [same.calls]; exact orderly.alone
  device := by rw [same.protector, same.calls]; exact orderly.device
  boot := by rw [same.protector, orderly.boot, outside, stays]
  flag := by
    have before := (flagMatches_outside outside).mp orderly.flag
    rw [flagMatches_outside stays, DeviceFlag, same.calls, same.external, same.requests]
    exact before
  emptied := by
    intro unlocking
    rw [unlocking] at stays
    cases stays
  unaborted := unaborted

/-- One more step, when its label accounts for what changed. -/
theorem Accounted.snoc (accounted : Accounted trace system) (label : Label)
    (once : label.passedCode.toList ++ next.pending = system.pending ++ label.appendedCode.toList)
    (balanced : system.protector.toList.length + label.isLock.toNat =
      label.isUnlock.toNat + next.protector.toList.length)
    (held : ∀ thread, label ≠ .unlocked thread false)
    (since : next.point.inSection = false → next.interruption_requests = appendedSince (trace ++ [label])) :
    Accounted (trace ++ [label]) next where
  once := by
    rw [passed_snoc, appended_snoc, List.append_assoc, once, ← List.append_assoc, accounted.once]
  balanced := by
    rw [locks_snoc, unlocks_snoc, accounted.balanced]
    omega
  held := by
    intro thread member
    rcases List.mem_append.mp member with earlier | last
    · exact accounted.held thread earlier
    · exact held thread (List.mem_singleton.mp last).symm
  since := since

theorem Accounted.quiet (accounted : Accounted trace system) (waiting : next.pending = system.pending)
    (mutex : next.protector = system.protector)
    (since : next.point.inSection = false → next.interruption_requests = appendedSince trace) :
    Accounted (trace ++ [.quiet]) next := by
  apply accounted.snoc
  · simp [Label.passedCode, Label.appendedCode, waiting]
  · simp [Label.isLock, Label.isUnlock, mutex]
  · intro thread same
    cases same
  · intro outside
    rw [appendedSince_snoc]
    exact since outside

/-- A quiet step outside the section. -/
theorem Accounted.move (accounted : Accounted trace system) (same : SameQueue system next)
    (outside : system.point.inSection = false) (stays : next.point.inSection = false) :
    Accounted (trace ++ [.quiet]) next := by
  apply accounted.quiet
  · rw [pending_outside stays, pending_outside outside, same.requests]
  · exact same.protector
  · intro _
    rw [same.requests]
    exact accounted.since outside

/-! ## Deliveries -/

theorem doInterruption_keyboard (host : Host) {machine : Machine} (fits : machine.FrameFits) :
    doInterruption host 0x05 machine = .ok () (machine.delivered 5) :=
  doInterruption_room host (by decide) rfl (fun held => absurd held.1 (by decide)) fits

theorem builtInHandler_request (host : Host) {code : Word} (request : RequestCode code) :
    builtInHandler host code = none := by
  have apart (number : Word) (hardware : number.toNat ≤ 0x1F) : code ≠ number := by
    rintro rfl
    exact absurd request.1 (not_lt.mpr hardware)
  simp only [builtInHandler, if_neg (apart _ (show (0x00 : Word).toNat ≤ 0x1F by decide)),
    if_neg (apart 0x03 (by decide)), if_neg (apart 0x07 (by decide)), if_neg (apart 0x10 (by decide)),
    if_neg (apart 0x11 (by decide)), if_neg (apart 0x12 (by decide)), if_neg (apart 0x13 (by decide)),
    if_neg (apart 0x14 (by decide)), if_neg (apart 0x15 (by decide)), if_neg (apart 0x16 (by decide)),
    if_neg (apart 0x17 (by decide)), if_neg (apart 0x18 (by decide)), if_neg (apart 0x19 (by decide))]

/-- A request that is masked or has room is delivered without an abort. -/
theorem doInterruption_request (host : Host) {code : Word} {machine : Machine} (request : RequestCode code)
    (fits : getFlag machine.registers.FlagRegister .interruptionMask = true ∨ machine.FrameFits) :
    ∃ after, doInterruption host code machine = .ok () after := by
  by_cases held : Held code machine
  · exact ⟨machine, doInterruption_held (inTable request.2) held⟩
  · have room : machine.FrameFits := fits.resolve_left fun mask => held ⟨request.1, mask⟩
    exact ⟨_, doInterruption_room host request.2 (builtInHandler_request host request) held room⟩

theorem doInterruption_redirection (host : Host) (machine : Machine) :
    doInterruption host 0x07 machine = .ok () machine.redirected := by
  have handler : builtInHandler host 0x07 = some doStackoverflow := rfl
  have known : ¬ BitVec.ofNat 64 MAX_INTERRUPTION_ENTRY < (0x07 : Word) := by decide
  have hardware : (0x07 : Word) ≤ 0x1F := by decide
  simp only [doInterruption, if_neg known, bind_apply, getRegisters, get_apply, pure_apply, if_pos hardware, handler,
    doStackoverflow_ok]

theorem afterDelivery_same (system : System) (next caught : BootPoint) (result : EStateM.Result Fault Machine Unit) :
    SameQueue system (system.afterDelivery next caught result) ∧
      ((system.afterDelivery next caught result).point = next ∨ (system.afterDelivery next caught result).point = caught ∨
        (system.afterDelivery next caught result).point = .escaped) := by
  cases result with
  | ok _ machine => exact ⟨⟨rfl, rfl, rfl, rfl⟩, .inl rfl⟩
  | error fault machine =>
    cases fault with
    | abort => exact ⟨⟨rfl, rfl, rfl, rfl⟩, .inr (.inl rfl)⟩
    | _ => exact ⟨⟨rfl, rfl, rfl, rfl⟩, .inr (.inr rfl)⟩

theorem afterRedirection_same (system : System) (next : BootPoint) (result : EStateM.Result Fault Machine Unit) :
    SameQueue system (system.afterRedirection next result) ∧
      ((system.afterRedirection next result).point = next ∨ (system.afterRedirection next result).point = .failure) := by
  cases result with
  | ok _ machine => exact ⟨⟨rfl, rfl, rfl, rfl⟩, .inl rfl⟩
  | error fault machine => exact ⟨⟨rfl, rfl, rfl, rfl⟩, .inr rfl⟩

/-! ## The steps of a device -/

/-- A device that finds the mutex taken gives up, and takes it otherwise. -/
inductive CallMove (code : Word) (system : System) : Label → System → Prop where
  | ignored {holder : Thread} (mutex : system.protector = some holder) : CallMove code system .quiet system
  | locks (mutex : system.protector = none) :
      CallMove code system (.locked .device)
        { system with protector := some .device, calls := { code := code, point := .emplace } :: system.calls }

/-- The statements of a device that holds the mutex. -/
inductive DeviceMove (index : ℕ) (system : System) (call : DeviceCall) : Label → System → Prop where
  | emplace (place : call.point = .emplace) :
      DeviceMove index system call (.appended call.code)
        { system with
          interruption_requests := system.interruption_requests ++ [call.code]
          calls := system.calls.set index { call with point := .raise } }
  | raise (place : call.point = .raise) :
      DeviceMove index system call .quiet
        { system with
          external_device_requested := true
          calls := system.calls.set index { call with point := .unlock } }
  | unlock (place : call.point = .unlock) :
      DeviceMove index system call (.unlocked .device (system.protector == some .device))
        { system with protector := none, calls := system.calls.eraseIdx index }

theorem deviceCall_eq_some_iff {code : Word} {label : Label} :
    system.deviceCall code = some (label, next) ↔
      (0x1F < code ∧ code < BitVec.ofNat 64 MAX_INTERRUPTION_ENTRY) ∧ CallMove code system label next := by
  rw [deviceCall]
  constructor
  · intro done
    split_ifs at done with range
    refine ⟨range, ?_⟩
    cases mutex : system.protector with
    | some holder =>
      rw [mutex] at done
      cases done
      exact .ignored mutex
    | none =>
      rw [mutex] at done
      cases done
      exact .locks mutex
  · rintro ⟨range, move⟩
    rw [if_pos range]
    cases move with
    | ignored mutex | locks mutex => rw [mutex]

theorem deviceStep_eq_some_iff {index : ℕ} {label : Label} :
    system.deviceStep index = some (label, next) ↔
      ∃ call, system.calls[index]? = some call ∧ DeviceMove index system call label next := by
  rw [deviceStep]
  constructor
  · intro done
    cases found : system.calls[index]? with
    | none => simp [found] at done
    | some call =>
      refine ⟨call, rfl, ?_⟩
      simp only [found] at done
      cases place : call.point with
      | emplace =>
        simp only [place] at done
        cases done
        exact .emplace place
      | raise =>
        simp only [place] at done
        cases done
        exact .raise place
      | unlock =>
        simp only [place] at done
        cases done
        exact .unlock place
  · rintro ⟨call, found, move⟩
    simp only [found]
    cases move with
    | emplace place | raise place | unlock place => simp only [place]

/-! ## One step -/

/-- The boot thread inside its section: the mutex is its own and no device is between its statements. -/
theorem Orderly.inside (orderly : system.Orderly) (inside : system.point.inSection = true) :
    system.protector = some .boot ∧ system.calls = [] := by
  have mutex := orderly.boot.mpr inside
  refine ⟨mutex, ?_⟩
  by_contra busy
  have other := orderly.device.mpr busy
  rw [mutex] at other
  cases other

theorem Orderly.free (orderly : system.Orderly) (mutex : system.protector = none) :
    system.calls = [] ∧ system.point.inSection = false := by
  constructor
  · by_contra busy
    have other := orderly.device.mpr busy
    rw [mutex] at other
    cases other
  · rw [Bool.eq_false_iff]
    intro inside
    have other := orderly.boot.mpr inside
    rw [mutex] at other
    cases other

/-- A step of the boot thread inside its section that keeps the mutex. -/
theorem Orderly.advance (orderly : system.Orderly) (inside : system.point.inSection = true)
    (remains : next.point.inSection = true) (mutex : next.protector = system.protector)
    (calls : next.calls = system.calls) (codes : ∀ code ∈ next.interruption_requests, RequestCode code)
    (flag : next.FlagMatches) (emptied : next.point = .unlock → next.interruption_requests = []) : next.Orderly where
  codes := codes
  calls := by rw [calls]; exact orderly.calls
  alone := by rw [calls]; exact orderly.alone
  device := by rw [mutex, calls]; exact orderly.device
  boot := by rw [mutex, orderly.boot, inside, remains]
  flag := flag
  emptied := emptied
  unaborted := by
    intro aborted
    rw [aborted] at remains
    cases remains

/-- A step of the boot thread whose delivery does not abort. -/
theorem bootStep_orderly {host : Host} {label : Label} (orderly : system.Orderly) (accounted : Accounted trace system)
    (fits : system.DeliveryFits) (step : system.bootStep host = some (label, next)) :
    next.Orderly ∧ Accounted (trace ++ [label]) next := by
  have outside (quiet : label = .quiet) (same : SameQueue system next) (before : system.point.inSection = false)
      (after : next.point.inSection = false) (unaborted : next.point ≠ .handler) :
      next.Orderly ∧ Accounted (trace ++ [label]) next := by
    subst quiet
    exact ⟨orderly.move same before after unaborted, accounted.move same before after⟩
  rw [bootStep] at step
  cases place : system.point with
  | loop =>
    simp only [place] at step
    split_ifs at step <;> cases step
    · exact outside rfl ⟨rfl, rfl, rfl, rfl⟩ (by rw [place]; rfl) rfl (by simp)
    · exact outside rfl ⟨rfl, rfl, rfl, rfl⟩ (by rw [place]; rfl) rfl (by simp)
  | capture =>
    simp only [place] at step
    split_ifs at step <;> cases step
    · exact outside rfl ⟨rfl, rfl, rfl, rfl⟩ (by rw [place]; rfl) rfl (by simp)
    · exact outside rfl ⟨rfl, rfl, rfl, rfl⟩ (by rw [place]; rfl) rfl (by simp)
  | keyboard =>
    have room : system.machine.FrameFits := by
      rw [DeliveryFits, place] at fits
      exact fits
    simp only [place, doInterruption_keyboard host room, afterDelivery] at step
    cases step
    exact outside rfl ⟨rfl, rfl, rfl, rfl⟩ (by rw [place]; rfl) rfl (by simp)
  | lock =>
    simp only [place] at step
    cases mutex : system.protector with
    | some holder =>
      rw [mutex] at step
      cases step
    | none =>
      rw [mutex] at step
      cases step
      obtain ⟨idle, before⟩ := orderly.free mutex
      have flag := (flagMatches_outside before).mp orderly.flag
      simp only [DeviceFlag, idle] at flag
      refine ⟨⟨orderly.codes, orderly.calls, orderly.alone, ?_, ?_, ?_, ?_, ?_⟩, ?_⟩
      · simp [idle]
      · simp [BootPoint.inSection]
      · simpa [FlagMatches] using flag
      · simp
      · simp
      · apply accounted.snoc
        · rw [pending_outside before]
          simp [pending, Label.passedCode, Label.appendedCode]
        · simp [mutex, Label.isLock, Label.isUnlock]
        · simp
        · simp [BootPoint.inSection]
  | request index =>
    have inside : system.point.inSection = true := by
      rw [place]
      rfl
    simp only [place] at step
    cases found : system.interruption_requests[index]? with
    | none =>
      rw [found] at step
      cases step
      have beyond := List.getElem?_eq_none_iff.mp found
      have flag := orderly.flag
      simp only [FlagMatches, place] at flag
      refine ⟨orderly.advance inside rfl rfl rfl orderly.codes ?_ (by simp),
        accounted.quiet ?_ rfl (by simp [BootPoint.inSection])⟩
      · simp only [FlagMatches]
        rw [flag]
        by_cases first : index = 0
        · subst first
          simp [List.length_eq_zero_iff.mp (Nat.le_zero.mp beyond)]
        · simp [first]
      · simp [pending, place, List.drop_eq_nil_of_le beyond]
    | some code =>
      have request := orderly.codes code (List.mem_of_getElem? found)
      have room : getFlag system.machine.registers.FlagRegister .interruptionMask = true ∨ system.machine.FrameFits := by
        rw [DeliveryFits, place] at fits
        exact fits
      obtain ⟨after, delivered⟩ := doInterruption_request host request room
      simp only [found, delivered, afterDelivery] at step
      cases step
      refine ⟨orderly.advance inside rfl rfl rfl orderly.codes trivial (by simp),
        accounted.snoc _ ?_ ?_ (by simp) (by simp [BootPoint.inSection])⟩
      · obtain ⟨bound, same⟩ := List.getElem?_eq_some_iff.mp found
        simp only [pending, place, Label.passedCode, Label.appendedCode, Option.toList_some, Option.toList_none,
          List.append_nil, List.singleton_append]
        rw [List.drop_eq_getElem_cons bound, same]
      · simp [Label.isLock, Label.isUnlock]
  | served index =>
    have inside : system.point.inSection = true := by
      rw [place]
      rfl
    simp only [place] at step
    cases step
    refine ⟨orderly.advance inside rfl rfl rfl orderly.codes ?_ (by simp),
      accounted.quiet ?_ rfl (by simp [BootPoint.inSection])⟩
    · simp [FlagMatches]
    · simp [pending, place]
  | handler => exact absurd place orderly.unaborted
  | clear =>
    have inside : system.point.inSection = true := by
      rw [place]
      rfl
    have flag := orderly.flag
    simp only [FlagMatches, place] at flag
    simp only [place] at step
    cases step
    refine ⟨orderly.advance inside rfl rfl rfl (by simp) flag (fun _ => rfl),
      accounted.quiet ?_ rfl (by simp [BootPoint.inSection])⟩
    simp [pending, place]
  | unlock =>
    have inside : system.point.inSection = true := by
      rw [place]
      rfl
    obtain ⟨mutex, idle⟩ := orderly.inside inside
    have flag := orderly.flag
    simp only [FlagMatches, place] at flag
    simp only [place] at step
    cases step
    refine ⟨⟨orderly.codes, orderly.calls, orderly.alone, ?_, ?_, ?_, ?_, ?_⟩, ?_⟩
    · simp [idle]
    · simp [BootPoint.inSection]
    · simp [FlagMatches, DeviceFlag, idle, flag, orderly.emptied place]
    · simp
    · simp
    · apply accounted.snoc
      · simp [pending, place, Label.passedCode, Label.appendedCode]
      · simp [mutex, Label.isLock, Label.isUnlock]
      · simp [mutex]
      · simp [orderly.emptied place]
  | shutdown =>
    simp only [place] at step
    split_ifs at step <;> cases step
    · exact outside rfl ⟨rfl, rfl, rfl, rfl⟩ (by rw [place]; rfl) rfl (by simp)
    · exact outside rfl ⟨rfl, rfl, rfl, rfl⟩ (by rw [place]; rfl) rfl (by simp)
  | invokeShutdown =>
    simp only [place] at step
    cases step
    obtain ⟨⟨requests, external, protector, calls⟩, point⟩ := afterDelivery_same
      { system with have_I_invoked_shutdown := true, CtrlZShutdownRequested := false, point := .invokeShutdown }
      .execute .shutdownHandler (doInterruption host 0x09 system.machine)
    refine outside rfl ⟨requests, external, protector, calls⟩ (by rw [place]; rfl) ?_ ?_
    · rcases point with there | there | there <;> rw [there] <;> rfl
    · rcases point with there | there | there <;> rw [there] <;> simp
  | shutdownHandler =>
    simp only [place] at step
    cases step
    obtain ⟨same, point⟩ := afterRedirection_same system .execute (doInterruption host 0x07 system.machine)
    refine outside rfl same (by rw [place]; rfl) ?_ ?_
    · rcases point with there | there <;> rw [there] <;> rfl
    · rcases point with there | there <;> rw [there] <;> simp
  | execute =>
    simp only [place] at step
    cases step
    exact outside rfl ⟨rfl, rfl, rfl, rfl⟩ (by rw [place]; rfl) rfl (by simp)
  | returned => simp [place] at step
  | failure => simp [place] at step
  | escaped => simp [place] at step

/-- A device inside `do_ext_dev_interruption` is the only one, and keeps the boot thread out. -/
theorem Orderly.busy (orderly : system.Orderly) {call : DeviceCall} {index : ℕ} (found : system.calls[index]? = some call) :
    system.calls = [call] ∧ index = 0 ∧ system.protector = some .device ∧ system.point.inSection = false := by
  have bound := (List.getElem?_eq_some_iff.mp found).1
  have first : index = 0 := by
    have alone := orderly.alone
    omega
  subst first
  have only : system.calls = [call] := by
    cases shape : system.calls with
    | nil => simp [shape] at found
    | cons head rest =>
      have alone := orderly.alone
      rw [shape, List.length_cons] at alone
      have none_left : rest = [] := List.length_eq_zero_iff.mp (by omega)
      simp only [shape, List.getElem?_cons_zero, Option.some.injEq] at found
      rw [found, none_left]
  have mutex : system.protector = some .device := orderly.device.mpr (by simp [only])
  refine ⟨only, rfl, mutex, ?_⟩
  rw [Bool.eq_false_iff]
  intro inside
  have other := orderly.boot.mpr inside
  rw [mutex] at other
  cases other

theorem requestCode_of_accepted {code : Word}
    (accepted : 0x1F < code ∧ code < BitVec.ofNat 64 MAX_INTERRUPTION_ENTRY) : RequestCode code := by
  have lower := BitVec.lt_def.mp accepted.1
  have upper := BitVec.lt_def.mp accepted.2
  have last : (BitVec.ofNat 64 MAX_INTERRUPTION_ENTRY).toNat ≤ 0x100 := by decide
  exact ⟨lower, by omega⟩

theorem deviceCall_orderly {code : Word} {label : Label} (orderly : system.Orderly) (accounted : Accounted trace system)
    (step : system.deviceCall code = some (label, next)) : next.Orderly ∧ Accounted (trace ++ [label]) next := by
  obtain ⟨accepted, move⟩ := deviceCall_eq_some_iff.mp step
  cases move with
  | ignored mutex => exact ⟨orderly, accounted.quiet rfl rfl accounted.since⟩
  | locks mutex =>
    obtain ⟨idle, outside⟩ := orderly.free mutex
    have flag := (flagMatches_outside outside).mp orderly.flag
    simp only [DeviceFlag, idle] at flag
    refine ⟨⟨orderly.codes, ?_, ?_, ?_, ?_, ?_, orderly.emptied, orderly.unaborted⟩,
      accounted.snoc _ ?_ ?_ (by simp) ?_⟩
    · intro call member
      simp only [idle, List.mem_singleton] at member
      subst member
      exact requestCode_of_accepted accepted
    · simp [idle]
    · simp
    · simp [outside]
    · rw [flagMatches_outside (by exact outside)]
      exact flag
    · rw [pending_outside outside, pending_outside (by exact outside)]
      simp [Label.passedCode, Label.appendedCode]
    · simp [mutex, Label.isLock, Label.isUnlock]
    · intro _
      simpa using accounted.since outside

theorem deviceStep_orderly {index : ℕ} {label : Label} (orderly : system.Orderly) (accounted : Accounted trace system)
    (step : system.deviceStep index = some (label, next)) : next.Orderly ∧ Accounted (trace ++ [label]) next := by
  obtain ⟨call, found, move⟩ := deviceStep_eq_some_iff.mp step
  obtain ⟨only, rfl, mutex, outside⟩ := orderly.busy found
  have accepted : RequestCode call.code := orderly.calls call (by simp [only])
  have flag := (flagMatches_outside outside).mp orderly.flag
  simp only [DeviceFlag, only] at flag
  cases move with
  | emplace place =>
    refine ⟨⟨?_, ?_, ?_, ?_, ?_, ?_, ?_, orderly.unaborted⟩, accounted.snoc _ ?_ ?_ (by simp) ?_⟩
    · intro code member
      rcases List.mem_append.mp member with earlier | last
      · exact orderly.codes code earlier
      · rw [List.mem_singleton.mp last]
        exact accepted
    · simp [only, accepted]
    · simp [only]
    · simp [only, mutex]
    · simp [mutex, outside]
    · rw [flagMatches_outside (by exact outside)]
      simp [DeviceFlag, only]
    · intro unlocking
      rw [show system.point = .unlock from unlocking] at outside
      cases outside
    · rw [pending_outside outside, pending_outside (by exact outside)]
      simp [Label.passedCode, Label.appendedCode]
    · simp [mutex, Label.isLock, Label.isUnlock]
    · intro _
      simpa using accounted.since outside
  | raise place =>
    simp only [place] at flag
    refine ⟨⟨orderly.codes, ?_, ?_, ?_, ?_, ?_, orderly.emptied, orderly.unaborted⟩,
      accounted.quiet ?_ rfl (fun _ => accounted.since outside)⟩
    · simp [only, accepted]
    · simp [only]
    · simp [only, mutex]
    · simp [mutex, outside]
    · rw [flagMatches_outside (by exact outside)]
      simpa [DeviceFlag, only] using flag
    · rw [pending_outside outside, pending_outside (by exact outside)]
  | unlock place =>
    simp only [place] at flag
    refine ⟨⟨orderly.codes, ?_, ?_, ?_, ?_, ?_, orderly.emptied, orderly.unaborted⟩, accounted.snoc _ ?_ ?_ ?_ ?_⟩
    · simp [only]
    · simp [only]
    · simp [only]
    · simp [outside]
    · rw [flagMatches_outside (by exact outside)]
      simp only [DeviceFlag, only, List.eraseIdx_cons_zero]
      rw [flag.1, flag.2]
      rfl
    · rw [pending_outside outside, pending_outside (by exact outside)]
      simp [Label.passedCode, Label.appendedCode]
    · simp [mutex, Label.isLock, Label.isUnlock]
    · simp [mutex]
    · intro _
      simpa using accounted.since outside

theorem press_orderly (key : ControlKey) (orderly : system.Orderly) (accounted : Accounted trace system) :
    (system.press key).Orderly ∧ Accounted (trace ++ [.quiet]) (system.press key) := by
  cases key <;>
    exact ⟨⟨orderly.codes, orderly.calls, orderly.alone, orderly.device, orderly.boot, orderly.flag, orderly.emptied,
      orderly.unaborted⟩, accounted.quiet rfl rfl accounted.since⟩

/-! ## Runs -/

/-- A run in which no delivery before a release runs out of stack. -/
inductive SafeRun (first : System) : List Label → System → Prop where
  | start : SafeRun first [] first
  | step {trace : List Label} {system next : System} {label : Label} (earlier : SafeRun first trace system)
      (step : Step system label next)
      (fits : ∀ host, system.bootStep host = some (label, next) → system.DeliveryFits) :
      SafeRun first (trace ++ [label]) next

/-- What is asked of the requests after any run. When the mutex was released in an iteration and nothing
was appended since, the request flag is down; and between a release and the next lock only a device can
hold the mutex. -/
structure HandledOnce (trace : List Label) (system : System) : Prop extends Accounted trace system where
  lowered : system.point.inSection = false → appendedSince trace = [] → system.external_device_requested = false
  released : system.point.inSection = false → system.protector ≠ some .boot

theorem Step.orderly {label : Label} (step : Step system label next)
    (fits : ∀ host, system.bootStep host = some (label, next) → system.DeliveryFits) (orderly : system.Orderly)
    (accounted : Accounted trace system) : next.Orderly ∧ Accounted (trace ++ [label]) next := by
  cases step with
  | boot host step => exact bootStep_orderly orderly accounted (fits host step) step
  | call code step => exact deviceCall_orderly orderly accounted step
  | device index step => exact deviceStep_orderly orderly accounted step
  | key key => exact press_orderly key orderly accounted

theorem start_orderly (machine : Machine) : (start machine).Orderly ∧ Accounted [] (start machine) := by
  refine ⟨⟨?_, ?_, ?_, ?_, ?_, ?_, ?_, ?_⟩, ⟨?_, ?_, ?_, ?_⟩⟩ <;>
    simp [start, BootPoint.inSection, FlagMatches, DeviceFlag, passed, appended, pending, locks, unlocks, appendedSince]

theorem SafeRun.orderly {machine : Machine} (run : SafeRun (System.start machine) trace system) :
    system.Orderly ∧ Accounted trace system := by
  induction run with
  | start => exact start_orderly machine
  | step earlier step fits before => exact step.orderly fits before.1 before.2

/-- Outside the section of the boot thread an empty queue comes with a lowered flag. -/
theorem Orderly.lowered (orderly : system.Orderly) (outside : system.point.inSection = false)
    (empty : system.interruption_requests = []) : system.external_device_requested = false := by
  have flag := (flagMatches_outside outside).mp orderly.flag
  cases calls : system.calls with
  | nil =>
    simp only [DeviceFlag, calls, empty] at flag
    exact flag
  | cons call rest =>
    cases place : call.point with
    | emplace =>
      simp only [DeviceFlag, calls, place, empty] at flag
      exact flag
    | raise => simp [DeviceFlag, calls, place, empty] at flag
    | unlock => simp [DeviceFlag, calls, place, empty] at flag

/-- As long as no delivery before a release runs out of stack, the requests of devices are handled once,
however the threads interleave. -/
theorem requests_handledOnce {machine : Machine} (run : SafeRun (start machine) trace system) :
    HandledOnce trace system := by
  obtain ⟨orderly, accounted⟩ := run.orderly
  refine ⟨accounted, ?_, ?_⟩
  · intro outside since
    apply orderly.lowered outside
    rw [accounted.since outside, since]
  · intro outside mutex
    have inside := orderly.boot.mp mutex
    rw [outside] at inside
    cases inside

/-- With room on the stack a request that was appended is passed on, and the iteration releases the mutex. -/
theorem requests_handledOnce_served :
    ∃ (trace : List Label) (system : System), SafeRun (start Machine.withStack) trace system ∧
      passed trace = [0x20] ∧ HandledOnce trace system := by
  have entered : SafeRun (start Machine.withStack) _ _ :=
    .step (.step .start (.call 0x20 rfl) fun _ _ => trivial) (.device 0 rfl) fun _ _ => trivial
  have requested := (entered.step (.device 0 rfl) fun _ _ => trivial).step (.device 0 rfl) fun _ _ => trivial
  have captured := (requested.step (.boot Host.ample rfl) fun _ _ => trivial).step (.boot Host.ample rfl)
    fun _ _ => trivial
  have locked := captured.step (.boot Host.ample rfl) fun _ _ => trivial
  have delivery : doInterruption Host.ample 0x20 Machine.withStack = .ok () (Machine.withStack.delivered 0x20) :=
    doInterruption_room Host.ample (by decide) rfl (by decide) (by decide)
  have served := locked.step
    (.boot Host.ample (congrArg (fun result => some (_, System.afterDelivery _ _ _ result)) delivery))
    fun _ _ => .inr (by decide)
  have cleared := ((served.step (.boot Host.ample rfl) fun _ _ => trivial).step (.boot Host.ample rfl)
    fun _ _ => .inr (by decide)).step (.boot Host.ample rfl) fun _ _ => trivial
  have released := cleared.step (.boot Host.ample rfl) fun _ _ => trivial
  exact ⟨_, _, released, rfl, requests_handledOnce released⟩

/-- Right after power on the stack has no room. When a device has requested an interruption and Ctrl+C is
pressed, the delivery of the keyboard interruption aborts before the lock: the request is dropped and the
boot thread releases a mutex that it does not hold. -/
theorem not_handledOnce_keyboard :
    ¬ ∀ (machine : Machine) (trace : List Label) (system : System), Run (start machine) trace system →
      HandledOnce trace system := by
  intro handled
  have entered : Run (start Machine.powerOn) _ _ := .step (.step .start (.call 0x20 rfl)) (.device 0 rfl)
  have requested := ((entered.step (.device 0 rfl)).step (.device 0 rfl)).step (.key _ .ctrlC)
  have captured := (requested.step (.boot Host.ample rfl)).step (.boot Host.ample rfl)
  have full : doInterruption Host.ample 0x05 Machine.powerOn = .error .abort Machine.powerOn.redirected :=
    doInterruption_full (by decide) rfl (by decide) (by decide)
  have aborted := captured.step
    (.boot Host.ample (congrArg (fun result => some (_, System.afterDelivery _ _ _ result)) full))
  have caught := aborted.step (.boot Host.ample (congrArg (fun result => some (_, System.afterRedirection _ _ result))
    (doInterruption_redirection Host.ample Machine.powerOn.redirected)))
  have released := (caught.step (.boot Host.ample rfl)).step (.boot Host.ample rfl)
  exact (handled _ _ _ released).held .boot (by decide)

end System

end Sysdarft
