import Sysdarft.Model.Interruption
import Sysdarft.Proofs.MemoryRefinement

/-! # Memory access of the machine on the flat view

`GuestMemory.overwrite` states a write as an operation on the flat view. The access functions of
the machine are rewritten to it: an access that fits succeeds with exactly that effect, any other
access of a size below `2^63` throws and changes nothing.
-/

namespace Sysdarft

open Effects

namespace PagedMemory

/-- Memory is determined by its size and its flat view. -/
theorem ext_peek {first second : PagedMemory} (total : first.TotalMemory = second.TotalMemory)
    (view : first.peek = second.peek) : first = second := by
  obtain ⟨size, blocks⟩ := first
  obtain ⟨size', blocks'⟩ := second
  obtain rfl : size = size' := total
  congr 1
  funext page offset
  have same := congrFun view (page.val * BLOCK_SIZE + offset.val)
  rwa [peek_block ⟨size, blocks⟩ page.isLt offset.isLt,
    peek_block ⟨size, blocks'⟩ page.isLt offset.isLt] at same

theorem peek_unmapped {memory : PagedMemory} {address : ℕ} (unmapped : memory.numBlocks ≤ address / BLOCK_SIZE) :
    memory.peek address = 0 :=
  dif_neg (not_lt.mpr unmapped)

end PagedMemory

namespace GuestMemory

def peek (memory : GuestMemory) : ℕ → Byte := memory.paged.peek

def total (memory : GuestMemory) : ℕ := memory.paged.TotalMemory.toNat

theorem ext_paged {first second : GuestMemory} (same : first.paged = second.paged) : first = second := by
  cases first
  cases second
  cases same
  rfl

theorem ext_peek {first second : GuestMemory} (total : first.paged.TotalMemory = second.paged.TotalMemory)
    (view : first.peek = second.peek) : first = second :=
  ext_paged (PagedMemory.ext_peek total view)

/-- Replace the bytes from an address on. -/
def overwrite (memory : GuestMemory) (address : ℕ) (data : List Byte) : GuestMemory :=
  memory.replace
    { TotalMemory := memory.paged.TotalMemory
      Memory := fun page offset => FlatMemory.write memory.peek address data (page * BLOCK_SIZE + offset) } rfl

@[simp] theorem total_overwrite (memory : GuestMemory) (address : ℕ) (data : List Byte) :
    (memory.overwrite address data).total = memory.total := rfl

theorem peek_overwrite (memory : GuestMemory) {address : ℕ} {data : List Byte}
    (inside : address + data.length ≤ memory.total) :
    (memory.overwrite address data).peek = FlatMemory.write memory.peek address data := by
  funext query
  have split := Nat.div_add_mod' query BLOCK_SIZE
  have below : query % BLOCK_SIZE < BLOCK_SIZE := Nat.mod_lt _ (by decide)
  by_cases mapped : query / BLOCK_SIZE < memory.paged.numBlocks
  · have block := PagedMemory.peek_block (memory.overwrite address data).paged mapped below
    rw [split] at block
    rw [peek, block]
    exact congrArg (FlatMemory.write memory.peek address data) split
  · have beyond : memory.total ≤ query := by
      have := Nat.mul_le_mul_right BLOCK_SIZE (not_lt.mp mapped)
      rw [memory.aligned.numBlocks_mul] at this
      exact this.trans (by omega)
    rw [FlatMemory.write_outside (.inr (by omega)), peek, peek, PagedMemory.peek_unmapped (not_lt.mp mapped)]
    exact PagedMemory.peek_unmapped (not_lt.mp mapped)

end GuestMemory

/-- Replace bytes of the memory of a machine. -/
def Machine.overwrite (machine : Machine) (address : ℕ) (data : List Byte) : Machine :=
  { machine with memory := machine.memory.overwrite address data }

theorem Machine.overwrite_nil (machine : Machine) {address : ℕ} (inside : address ≤ machine.memory.total) :
    machine.overwrite address [] = machine := by
  have same : machine.memory.overwrite address [] = machine.memory := by
    apply GuestMemory.ext_peek
    · rfl
    · rw [GuestMemory.peek_overwrite _ (by rw [List.length_nil]; exact inside), FlatMemory.write_nil]
  rw [overwrite, same]

/-- A write in two adjacent pieces is one write. -/
theorem Machine.overwrite_append (machine : Machine) {address : ℕ} {first second : List Byte}
    (inside : address + (first ++ second).length ≤ machine.memory.total) :
    (machine.overwrite address first).overwrite (address + first.length) second =
      machine.overwrite address (first ++ second) := by
  have same : (machine.memory.overwrite address first).overwrite (address + first.length) second =
      machine.memory.overwrite address (first ++ second) := by
    apply GuestMemory.ext_peek
    · rfl
    · rw [GuestMemory.peek_overwrite _ inside]
      rw [List.length_append] at inside
      rw [GuestMemory.peek_overwrite _ (by rw [GuestMemory.total_overwrite]; omega),
        GuestMemory.peek_overwrite _ (by omega), FlatMemory.write_append]
  simp only [overwrite, same]

variable {machine : Machine} {address size : Word}

theorem readMemory_started (inside : address.toNat + size.toNat ≤ machine.memory.total)
    (started : address.toNat < machine.memory.total) :
    readMemory address size machine =
      .ok (FlatMemory.read machine.memory.peek address.toNat size.toNat) machine := by
  rw [readMemory, PagedMemory.readMemory_flat machine.memory.aligned inside started]
  rfl

theorem readMemory_inside (inside : address.toNat + size.toNat ≤ machine.memory.total) (nonempty : 0 < size.toNat) :
    readMemory address size machine =
      .ok (FlatMemory.read machine.memory.peek address.toNat size.toNat) machine :=
  readMemory_started inside (lt_of_lt_of_le (Nat.lt_add_of_pos_right nonempty) inside)

theorem writeMemory_started (source : List Byte) (inside : address.toNat + size.toNat ≤ machine.memory.total)
    (started : address.toNat < machine.memory.total) (length : source.length = size.toNat) :
    writeMemory address source size machine =
      .ok () (machine.overwrite address.toNat source) := by
  obtain ⟨paged, written, total, view⟩ :=
    PagedMemory.writeMemory_flat machine.memory.aligned inside started length
  simp only [writeMemory, written, Machine.overwrite]
  congr 2
  apply GuestMemory.ext_peek
  · exact total
  · rw [GuestMemory.peek_overwrite _ (by omega)]
    exact view

theorem writeMemory_inside (source : List Byte) (inside : address.toNat + size.toNat ≤ machine.memory.total)
    (nonempty : 0 < size.toNat) (length : source.length = size.toNat) :
    writeMemory address source size machine =
      .ok () (machine.overwrite address.toNat source) :=
  writeMemory_started source inside (lt_of_lt_of_le (Nat.lt_add_of_pos_right nonempty) inside) length

/-- The range check of accesses that cannot wrap around. -/
private theorem outOfRange_iff (memory : GuestMemory) (small : size.toNat < 2 ^ 63) :
    memory.paged.outOfRange address size = true ↔ memory.total < address.toNat + size.toNat := by
  have bound := memory.addressable
  have limit := address.isLt
  simp only [PagedMemory.outOfRange, Bool.or_eq_true, decide_eq_true_eq, BitVec.lt_def, BitVec.toNat_add,
    GuestMemory.total]
  constructor
  · rintro (high | high)
    · omega
    · exact lt_of_lt_of_le high (Nat.mod_le ..)
  · intro beyond
    by_cases high : memory.paged.TotalMemory.toNat < address.toNat
    · exact .inl high
    · rw [Nat.mod_eq_of_lt (by omega)]
      exact .inr beyond

theorem readMemory_outside (small : size.toNat < 2 ^ 63)
    (outside : machine.memory.total < address.toNat + size.toNat) :
    readMemory address size machine =
      .error (.illegalMemoryAccess "Memory access out of bounds") machine := by
  have reject := PagedMemory.rejected [] ((outOfRange_iff machine.memory small).mpr outside)
  rw [readMemory, reject.1]
  rfl

theorem writeMemory_outside (source : List Byte) (small : size.toNat < 2 ^ 63)
    (outside : machine.memory.total < address.toNat + size.toNat) :
    writeMemory address source size machine =
      .error (.illegalMemoryAccess "Memory access out of bounds") machine := by
  have reject := PagedMemory.rejected source ((outOfRange_iff machine.memory small).mpr outside)
  simp only [writeMemory, reject.2]
  rfl

/-- A read that cannot wrap around returns the bytes asked for, or throws without an effect. -/
theorem readMemory_cases (machine : Machine) (address : Word) (small : size.toNat < 2 ^ 63) :
    readMemory address size machine =
        .ok (FlatMemory.read machine.memory.peek address.toNat size.toNat) machine ∨
      ∃ fault, readMemory address size machine = .error fault machine := by
  by_cases inside : address.toNat + size.toNat ≤ machine.memory.total
  · by_cases started : address.toNat < machine.memory.paged.TotalMemory.toNat
    · left
      rw [readMemory, PagedMemory.readMemory_flat machine.memory.aligned inside started]
      rfl
    · have atEnd : address = machine.memory.paged.TotalMemory := by
        apply BitVec.eq_of_toNat_eq
        rw [GuestMemory.total] at inside
        omega
      have empty : size = 0 := by
        apply BitVec.eq_of_toNat_eq
        rw [GuestMemory.total] at inside
        exact Nat.eq_zero_of_le_zero (by omega)
      right
      rw [readMemory, atEnd, empty, PagedMemory.readMemory_end]
      exact ⟨_, rfl⟩
  · exact .inr ⟨_, readMemory_outside small (not_le.mp inside)⟩

/-! ## The stack primitives -/

/-- Room for a push: the offset does not underflow and the bytes lie in memory. -/
def Machine.HasRoom (machine : Machine) (base offset : Word) (size : ℕ) : Prop :=
  size ≤ offset.toNat ∧ (base + (offset - BitVec.ofNat 64 size)).toNat + size ≤ machine.memory.total

instance (machine : Machine) (base offset : Word) (size : ℕ) : Decidable (machine.HasRoom base offset size) :=
  inferInstanceAs (Decidable (_ ∧ _))

private theorem toNat_length (data : List Byte) (small : data.length < 2 ^ 63) :
    (BitVec.ofNat 64 data.length).toNat = data.length := by
  rw [BitVec.toNat_ofNat, Nat.mod_eq_of_lt (by omega)]

theorem pushMemoryTo_room (base offset : Word) (data : List Byte) (nonempty : 0 < data.length)
    (small : data.length < 2 ^ 63) (room : machine.HasRoom base offset data.length) :
    pushMemoryTo base offset data machine =
      .ok (offset - BitVec.ofNat 64 data.length)
        (machine.overwrite (base + (offset - BitVec.ofNat 64 data.length)).toNat data) := by
  have length := toNat_length data small
  have enough : ¬ offset < BitVec.ofNat 64 data.length := by
    rw [BitVec.lt_def, length]
    exact not_lt.mpr room.1
  have inside : (base + (offset - BitVec.ofNat 64 data.length)).toNat + (BitVec.ofNat 64 data.length).toNat ≤
      machine.memory.total := by
    rw [length]
    exact room.2
  have written := writeMemory_inside data inside (by rw [length]; exact nonempty) length.symm
  simp only [pushMemoryTo, if_neg enough, bind_apply, asStackOverflow, tryCatch_apply, written, pure_apply]

theorem pushMemoryTo_full (base offset : Word) (data : List Byte) (small : data.length < 2 ^ 63)
    (full : ¬ machine.HasRoom base offset data.length) :
    pushMemoryTo base offset data machine = .error .stackOverflow machine := by
  have length := toNat_length data small
  by_cases short : offset < BitVec.ofNat 64 data.length
  · simp only [pushMemoryTo, if_pos short, throw_apply]
  · have outside : machine.memory.total <
        (base + (offset - BitVec.ofNat 64 data.length)).toNat + (BitVec.ofNat 64 data.length).toNat := by
      rw [BitVec.lt_def, length, not_lt] at short
      rw [length]
      exact not_le.mp fun inside => full ⟨short, inside⟩
    simp only [pushMemoryTo, if_neg short, bind_apply, asStackOverflow, tryCatch_apply,
      writeMemory_outside data (by rw [length]; exact small) outside, throw_apply]

theorem popMemoryFrom_inside (machine : Machine) (base offset size : Word) (nonempty : 0 < size.toNat)
    (inside : (base + offset).toNat + size.toNat ≤ machine.memory.total) :
    popMemoryFrom base offset size machine =
      .ok (FlatMemory.read machine.memory.peek (base + offset).toNat size.toNat, offset + size) machine := by
  simp only [popMemoryFrom, bind_apply, asStackOverflow, tryCatch_apply, readMemory_inside inside nonempty, pure_apply]

theorem popMemoryFrom_outside (machine : Machine) (base offset size : Word) (small : size.toNat < 2 ^ 63)
    (outside : machine.memory.total < (base + offset).toNat + size.toNat) :
    popMemoryFrom base offset size machine = .error .stackOverflow machine := by
  simp only [popMemoryFrom, bind_apply, asStackOverflow, tryCatch_apply, readMemory_outside small outside, throw_apply]

end Sysdarft
