import Sysdarft.Model.IOHub

/-! # The thread of the clock

`update_time` loops beside the CPU and requests the periodic interruption. The time it sleeps between two turns, and
what it logs, are left out.
-/

namespace Sysdarft

/-- `SysdarftRealTimeClock` with the local counter of its thread, which is wide enough for every scale. -/
structure ClockThread where
  clock : RealTimeClock
  scale_count : ℕ

/-- The call of `do_ext_dev_interruption` made in a turn of the loop. -/
def ClockThread.request (thread : ClockThread) : Option Word :=
  if thread.scale_count ≠ 0 then none
  else if 0x1F < thread.clock.interruption_number ∧
      thread.clock.interruption_number < BitVec.ofNat 64 MAX_INTERRUPTION_ENTRY then
    some thread.clock.interruption_number
  else none

/-- A turn of the loop of `update_time`. A request that does not return disables the interruption. -/
def ClockThread.updateTime (returns : Bool) (thread : ClockThread) : ClockThread :=
  if thread.scale_count ≠ 0 then { thread with scale_count := thread.scale_count - 1 }
  else
    let reloaded := { thread with scale_count := thread.clock.interruption_scale.toNat }
    if thread.request.isSome && !returns then
      { reloaded with clock := { thread.clock with interruption_number := 0 } }
    else reloaded

end Sysdarft
