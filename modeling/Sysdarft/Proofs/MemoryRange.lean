import Sysdarft.Proofs.MemoryRefinement

/-! # The range check of memory accesses

The check adds the address and the size in 64 bits. A sum that passes `2^64` and comes out inside memory
is let through, and so is the empty access at the end of memory; every other access is rejected exactly
when it does not fit.
-/

namespace Sysdarft.PagedMemory

open Effects

variable {memory : PagedMemory} {address size : Word}

/-- The sum of address and size passes `2^64` and comes out inside memory. -/
def WrapsInside (memory : PagedMemory) (address size : Word) : Prop :=
  address.toNat ≤ memory.TotalMemory.toNat ∧ 2 ^ 64 ≤ address.toNat + size.toNat ∧
    address.toNat + size.toNat - 2 ^ 64 ≤ memory.TotalMemory.toNat

instance (memory : PagedMemory) (address size : Word) : Decidable (memory.WrapsInside address size) :=
  inferInstanceAs (Decidable (_ ∧ _))

/-- The check as the source makes it, in the natural numbers. -/
theorem outOfRange_eq_true_iff :
    memory.outOfRange address size = true ↔
      memory.TotalMemory.toNat < address.toNat + size.toNat ∧ ¬ memory.WrapsInside address size := by
  have bound := memory.TotalMemory.isLt
  have limit := address.isLt
  have limit' := size.isLt
  simp only [outOfRange, WrapsInside, Bool.or_eq_true, decide_eq_true_eq, BitVec.lt_def, BitVec.toNat_add]
  by_cases wraps : 2 ^ 64 ≤ address.toNat + size.toNat
  · have sum : (address.toNat + size.toNat) % 2 ^ 64 = address.toNat + size.toNat - 2 ^ 64 := by omega
    rw [sum]
    omega
  · rw [Nat.mod_eq_of_lt (not_le.mp wraps)]
    omega

/-! ## What the copies throw -/

/-- The only throw of a copy out of the blocks is the missing block. -/
private theorem readBlock_error {page offset count : ℕ} {fault : MemoryFault}
    (failed : memory.readBlock page offset count = .error fault) : fault = .undefined := by
  rw [readBlock] at failed
  split_ifs at failed
  cases failed
  rfl

private theorem readFullPages_error {page pages i : ℕ} {fault : MemoryFault}
    (failed : memory.readFullPages page pages i = .error fault) : fault = .undefined := by
  induction pages generalizing i with
  | zero => cases failed
  | succ pages ih =>
    rcases except_bind_eq_error.mp failed with here | ⟨chunk, -, later⟩
    · exact readBlock_error here
    · rcases except_bind_eq_error.mp later with here | ⟨rest, -, done⟩
      · exact ih here
      · cases done

/-- An access that passes the check is not reported as out of bounds. -/
theorem readMemory_error_of_passed {fault : MemoryFault} (passed : memory.outOfRange address size = false)
    (failed : memory.readMemory address size = .error fault) : fault = .undefined := by
  rw [readMemory, passed, if_neg Bool.false_ne_true] at failed
  dsimp only at failed
  split_ifs at failed with single
  · exact readBlock_error failed
  · rcases except_bind_eq_error.mp failed with here | ⟨first, -, later⟩
    · exact readBlock_error here
    · rcases except_bind_eq_error.mp later with here | ⟨middle, -, later⟩
      · exact readFullPages_error here
      · rcases except_bind_eq_error.mp later with here | ⟨last, -, done⟩
        · rw [readLastPage] at here
          split_ifs at here
          · exact readBlock_error here
        · cases done

/-! ## The check -/

/-- An access is reported as out of bounds exactly when it does not fit, and otherwise touches nothing
outside the blocks. -/
structure RangeChecked (memory : PagedMemory) (address size : Word) : Prop where
  reads : (∃ message, memory.readMemory address size = .error (.illegalMemoryAccess message)) ↔
    memory.TotalMemory.toNat < address.toNat + size.toNat
  writes : ∀ source : List Byte, source.length = size.toNat →
    ((∃ message after, writeMemory address source size memory = .error (.illegalMemoryAccess message) after) ↔
      memory.TotalMemory.toNat < address.toNat + size.toNat)
  readsInside : memory.readMemory address size ≠ .error .undefined
  writesInside : ∀ source : List Byte, source.length = size.toNat →
    ∀ after, writeMemory address source size memory ≠ .error .undefined after

/-- A rejected access is checked, when it does not fit. -/
private theorem rangeChecked_rejected (reject : memory.outOfRange address size = true) :
    RangeChecked memory address size := by
  have beyond := (outOfRange_eq_true_iff.mp reject).1
  refine ⟨iff_of_true ⟨_, (rejected [] reject).1⟩ beyond,
    fun source _ => iff_of_true ⟨_, _, (rejected source reject).2⟩ beyond, ?_, fun source _ after => ?_⟩
  · rw [(rejected [] reject).1]
    exact nofun
  · rw [(rejected source reject).2]
    exact nofun

/-- So is an access that begins inside memory and fits. -/
private theorem rangeChecked_inside (aligned : memory.Aligned)
    (inside : address.toNat + size.toNat ≤ memory.TotalMemory.toNat)
    (started : address.toNat < memory.TotalMemory.toNat) : RangeChecked memory address size := by
  have reads := readMemory_flat aligned inside started
  refine ⟨iff_of_false ?_ (not_lt.mpr inside), fun source length => iff_of_false ?_ (not_lt.mpr inside), ?_,
    fun source length after => ?_⟩
  · rintro ⟨message, failed⟩
    exact absurd (reads.symm.trans failed) nofun
  · rintro ⟨message, after, failed⟩
    obtain ⟨memory', written, -, -⟩ := writeMemory_flat aligned inside started length
    exact absurd (written.symm.trans failed) nofun
  · rw [reads]
    exact nofun
  · obtain ⟨memory', written, -, -⟩ := writeMemory_flat aligned inside started length
    rw [written]
    exact nofun

theorem rangeChecked_iff (memory : PagedMemory) (aligned : memory.Aligned) (address size : Word) :
    RangeChecked memory address size ↔
      ¬ memory.WrapsInside address size ∧ ¬ (address = memory.TotalMemory ∧ size = 0) := by
  constructor
  · intro checked
    constructor
    · intro wraps
      have passed : memory.outOfRange address size = false :=
        Bool.eq_false_iff.mpr fun reject => (outOfRange_eq_true_iff.mp reject).2 wraps
      have bound := memory.TotalMemory.isLt
      obtain ⟨message, failed⟩ := checked.reads.mpr (lt_of_lt_of_le bound wraps.2.1)
      exact absurd (readMemory_error_of_passed passed failed) nofun
    · rintro ⟨rfl, rfl⟩
      exact checked.readsInside readMemory_end
  · rintro ⟨straight, apart⟩
    by_cases beyond : memory.TotalMemory.toNat < address.toNat + size.toNat
    · exact rangeChecked_rejected (outOfRange_eq_true_iff.mpr ⟨beyond, straight⟩)
    · have inside := not_lt.mp beyond
      refine rangeChecked_inside aligned inside (lt_of_le_of_ne (by omega) fun equal => apart ⟨?_, ?_⟩)
      · exact BitVec.eq_of_toNat_eq equal
      · exact BitVec.eq_of_toNat_eq (show size.toNat = 0 by omega)

/-- One block: the last bytes of it are checked, and the two kinds of accesses at its end are not. -/
theorem rangeChecked_oneBlock :
    RangeChecked oneBlock 4000 96 ∧ ¬ RangeChecked oneBlock 4096 0 ∧ ¬ RangeChecked oneBlock 8 (-8) :=
  ⟨(rangeChecked_iff oneBlock oneBlock_aligned 4000 96).mpr (by decide),
    fun checked => ((rangeChecked_iff oneBlock oneBlock_aligned 4096 0).mp checked).2 ⟨rfl, rfl⟩,
    fun checked => ((rangeChecked_iff oneBlock oneBlock_aligned 8 (-8)).mp checked).1 (by decide)⟩

/-- A read of `2^64 - 8` bytes from address 8 is not rejected, and an empty read at the end subscripts a
missing block. -/
theorem not_rangeChecked :
    ¬ ∀ memory : PagedMemory, memory.Aligned → ∀ address size : Word, RangeChecked memory address size := by
  intro every
  have passed : oneBlock.outOfRange 8 (-8) = false := by decide
  obtain ⟨message, failed⟩ := (every oneBlock oneBlock_aligned 8 (-8)).reads.mpr (by decide)
  exact absurd (readMemory_error_of_passed passed failed) nofun

end Sysdarft.PagedMemory
