import Sysdarft.Library.Effects
import Sysdarft.Model.Memory

/-! # Paged memory refines a flat byte array

Every piece of a block-wise transfer is described on the flat view by `FlatMemory.read` or
`FlatMemory.write`; the pieces then compose. The results for whole transfers, `readMemory_flat` and
`writeMemory_flat`, are the specifications the CPU layer uses.

A transfer of no bytes at the very end of memory passes the range check and still subscripts the
block vector, one past its last block. Every other access inside memory agrees with the flat view.
-/

namespace Sysdarft

namespace PagedMemory

open Effects

variable {memory : PagedMemory} {page offset count : ℕ}

theorem Aligned.numBlocks_mul (aligned : memory.Aligned) :
    memory.numBlocks * BLOCK_SIZE = memory.TotalMemory.toNat :=
  Nat.div_mul_cancel aligned

theorem peek_block (memory : PagedMemory) (mapped : page < memory.numBlocks) (inside : offset < BLOCK_SIZE) :
    memory.peek (page * BLOCK_SIZE + offset) = memory.Memory ⟨page, mapped⟩ ⟨offset, inside⟩ := by
  have quotient : (page * BLOCK_SIZE + offset) / BLOCK_SIZE = page := by
    rw [Nat.mul_comm, Nat.mul_add_div (by decide), Nat.div_eq_of_lt inside, Nat.add_zero]
  have remainder : (page * BLOCK_SIZE + offset) % BLOCK_SIZE = offset := by
    rw [Nat.mul_comm, Nat.mul_add_mod, Nat.mod_eq_of_lt inside]
  simp only [peek, quotient, remainder, mapped, ↓reduceDIte]

/-! ## Reading -/

theorem readBlock_flat (mapped : page < memory.numBlocks) (fits : offset + count ≤ BLOCK_SIZE) :
    memory.readBlock page offset count =
      .ok (FlatMemory.read memory.peek (page * BLOCK_SIZE + offset) count) := by
  rw [readBlock, dif_pos ⟨mapped, fits⟩, FlatMemory.read]
  congr 1
  apply List.map_congr_left
  intro i member
  have inside : offset + i < BLOCK_SIZE := by have := List.mem_range.mp member; omega
  rw [dif_pos inside, Nat.add_assoc, peek_block memory mapped inside]

theorem readFullPages_flat (page pages i : ℕ) (mapped : page + i + pages ≤ memory.numBlocks) :
    memory.readFullPages page pages i =
      .ok (FlatMemory.read memory.peek ((page + i) * BLOCK_SIZE) (pages * BLOCK_SIZE)) := by
  induction pages generalizing i with
  | zero => simp [readFullPages]
  | succ pages ih =>
    rw [readFullPages, readBlock_flat (by omega) le_rfl, ih (i + 1) (by omega),
      show (pages + 1) * BLOCK_SIZE = BLOCK_SIZE + pages * BLOCK_SIZE by ring, FlatMemory.read_add,
      show (page + i) * BLOCK_SIZE + BLOCK_SIZE = (page + (i + 1)) * BLOCK_SIZE by ring, Nat.add_zero]
    rfl

private theorem outOfRange_eq_false {address size : Word}
    (inside : address.toNat + size.toNat ≤ memory.TotalMemory.toNat) :
    memory.outOfRange address size = false := by
  have bound := memory.TotalMemory.isLt
  simp only [outOfRange, BitVec.lt_def, BitVec.toNat_add, Bool.or_eq_false_iff, decide_eq_false_iff_not]
  rw [Nat.mod_eq_of_lt (by omega)]
  omega

/-- The first block of an access inside memory exists, unless the access is empty and at the end. -/
private theorem first_block {address : ℕ} (aligned : memory.Aligned)
    (inside : address < memory.TotalMemory.toNat) : address / BLOCK_SIZE < memory.numBlocks := by
  rw [Nat.div_lt_iff_lt_mul (by decide), aligned.numBlocks_mul]
  exact inside

/-- The pieces of a transfer that leaves its first block, as the source computes them: where the
second block starts, how the size splits, and that all blocks touched exist. -/
private theorem pieces {address size first full last : ℕ} (aligned : memory.Aligned)
    (inside : address + size ≤ memory.TotalMemory.toNat) (large : first < size)
    (first_eq : first = BLOCK_SIZE - address % BLOCK_SIZE) (full_eq : full = (size - first) / BLOCK_SIZE)
    (last_eq : last = (size - first) % BLOCK_SIZE) :
    address + first = (address / BLOCK_SIZE + 1) * BLOCK_SIZE ∧
      size = first + (full * BLOCK_SIZE + last) ∧ last < BLOCK_SIZE ∧
      address / BLOCK_SIZE + 1 + full ≤ memory.numBlocks ∧
      (0 < last → address / BLOCK_SIZE + full + 1 < memory.numBlocks) := by
  have start := Nat.div_add_mod' address BLOCK_SIZE
  have rest : full * BLOCK_SIZE + last = size - first := by
    rw [full_eq, last_eq, Nat.div_add_mod']
  have below : address % BLOCK_SIZE < BLOCK_SIZE := Nat.mod_lt _ (by decide)
  have second : address + first = (address / BLOCK_SIZE + 1) * BLOCK_SIZE := by
    rw [Nat.add_mul, Nat.one_mul]
    omega
  have finish : address + size = (address / BLOCK_SIZE + 1 + full) * BLOCK_SIZE + last := by
    rw [Nat.add_mul _ full, ← second]
    omega
  have whole := aligned.numBlocks_mul
  refine ⟨second, by omega, last_eq ▸ Nat.mod_lt _ (by decide), ?_, ?_⟩
  · by_contra beyond
    have := Nat.mul_le_mul_right BLOCK_SIZE (Nat.succ_le_of_lt (not_le.mp beyond))
    rw [Nat.succ_mul, whole] at this
    omega
  · intro nonempty
    by_contra beyond
    have := Nat.mul_le_mul_right BLOCK_SIZE
      (show memory.numBlocks ≤ address / BLOCK_SIZE + 1 + full by omega)
    omega

/-- Reading inside memory returns the bytes of the flat view. -/
theorem readMemory_flat {address size : Word} (aligned : memory.Aligned)
    (inside : address.toNat + size.toNat ≤ memory.TotalMemory.toNat)
    (started : address.toNat < memory.TotalMemory.toNat) :
    memory.readMemory address size = .ok (FlatMemory.read memory.peek address.toNat size.toNat) := by
  have mapped := first_block aligned started
  have start := Nat.div_add_mod' address.toNat BLOCK_SIZE
  have below : address.toNat % BLOCK_SIZE < BLOCK_SIZE := Nat.mod_lt _ (by decide)
  rw [readMemory, outOfRange_eq_false inside, if_neg Bool.false_ne_true]
  by_cases small : size.toNat ≤ BLOCK_SIZE - address.toNat % BLOCK_SIZE
  · simp only [if_pos small]
    rw [readBlock_flat mapped (by omega), start]
  · simp only [if_neg small]
    generalize first_eq : BLOCK_SIZE - address.toNat % BLOCK_SIZE = first at small ⊢
    generalize full_eq : (size.toNat - first) / BLOCK_SIZE = full
    generalize last_eq : (size.toNat - first) % BLOCK_SIZE = last
    obtain ⟨second, sizes, short, blocks, lastBlock⟩ :=
      pieces aligned inside (not_le.mp small) first_eq.symm full_eq.symm last_eq.symm
    have final : memory.readLastPage (address.toNat / BLOCK_SIZE + full + 1) last =
        .ok (FlatMemory.read memory.peek
          ((address.toNat / BLOCK_SIZE + 1) * BLOCK_SIZE + full * BLOCK_SIZE) last) := by
      rw [readLastPage]
      split_ifs with nonempty
      · rw [readBlock_flat (lastBlock nonempty) (by omega), ← Nat.add_mul, Nat.add_zero,
          Nat.add_right_comm]
      · obtain rfl : last = 0 := by omega
        rfl
    rw [readBlock_flat mapped (by omega), start, readFullPages_flat _ _ _ blocks, final]
    conv_rhs => rw [sizes, FlatMemory.read_add, FlatMemory.read_add, ← List.append_assoc, second]
    rfl

/-! ## Writing -/

theorem peek_setBlock (mapped : page < memory.numBlocks) (src : List Byte)
    (enough : count ≤ src.length) (fits : offset + count ≤ BLOCK_SIZE) :
    (memory.setBlock ⟨page, mapped⟩ (copyInto (memory.Memory ⟨page, mapped⟩) offset src count)).peek =
      FlatMemory.write memory.peek (page * BLOCK_SIZE + offset) (src.take count) := by
  funext query
  have split := Nat.div_add_mod' query BLOCK_SIZE
  have below : query % BLOCK_SIZE < BLOCK_SIZE := Nat.mod_lt _ (by decide)
  have length : (src.take count).length = count := by rw [List.length_take]; omega
  by_cases known : query / BLOCK_SIZE < memory.numBlocks
  · rw [← split, peek_block (memory.setBlock ..) known below]
    simp only [setBlock]
    by_cases same : query / BLOCK_SIZE = page
    · subst same
      rw [Function.update_self]
      simp only [copyInto]
      split_ifs with inside
      · obtain ⟨i, position⟩ := Nat.exists_eq_add_of_le inside.1
        rw [position, ← Nat.add_assoc, FlatMemory.write_inside (show i < (src.take count).length by omega),
          Nat.add_sub_cancel_left, List.getElem_take, List.getD_eq_getElem?_getD,
          List.getElem?_eq_getElem (by omega), Option.getD_some]
      · rw [FlatMemory.write_outside (by omega), peek_block memory known below]
    · rw [Function.update_of_ne (fun equal => same (congrArg Fin.val equal)), FlatMemory.write_outside,
        peek_block memory known below]
      rcases lt_or_gt_of_ne same with before | after
      · have := Nat.mul_le_mul_right BLOCK_SIZE (Nat.succ_le_of_lt before)
        rw [Nat.succ_mul] at this
        omega
      · have := Nat.mul_le_mul_right BLOCK_SIZE (Nat.succ_le_of_lt after)
        rw [Nat.succ_mul] at this
        omega
  · have above : page * BLOCK_SIZE + offset + count ≤ query := by
      have := Nat.mul_le_mul_right BLOCK_SIZE (show page + 1 ≤ query / BLOCK_SIZE by omega)
      rw [Nat.succ_mul] at this
      omega
    rw [FlatMemory.write_outside (by omega), peek, peek, dif_neg known]
    exact dif_neg known

theorem copyN_flat (memory : PagedMemory) (page offset count : ℕ) (mapped : page < memory.numBlocks) (src : List Byte)
    (enough : count ≤ src.length)
    (fits : offset + count ≤ BLOCK_SIZE) :
    ∃ memory', copyN page offset src count memory = .ok () memory' ∧
      memory'.TotalMemory = memory.TotalMemory ∧
      memory'.peek = FlatMemory.write memory.peek (page * BLOCK_SIZE + offset) (src.take count) := by
  refine ⟨memory.setBlock ⟨page, mapped⟩ (copyInto (memory.Memory ⟨page, mapped⟩) offset src count), ?_, rfl,
    peek_setBlock mapped src enough fits⟩
  simp only [copyN, bind_apply, get_apply, set_apply, mapped, ↓reduceDIte,
    gt_iff_lt, not_lt.mpr fits, ↓reduceIte]

theorem writeFullPages_flat (memory : PagedMemory) (page : ℕ) (source : List Byte) (pages i current : ℕ)
    (mapped : page + i + pages ≤ memory.numBlocks) (enough : current + pages * BLOCK_SIZE ≤ source.length) :
    ∃ memory', writeFullPages page source pages i current memory = .ok (current + pages * BLOCK_SIZE) memory' ∧
      memory'.TotalMemory = memory.TotalMemory ∧
      memory'.peek = FlatMemory.write memory.peek ((page + i) * BLOCK_SIZE)
        ((source.drop current).take (pages * BLOCK_SIZE)) := by
  induction pages generalizing memory i current with
  | zero => exact ⟨memory, by simp [writeFullPages], rfl, by simp⟩
  | succ pages ih =>
    rw [Nat.succ_mul] at enough
    obtain ⟨middle, copied, total, view⟩ := copyN_flat memory (page + i) 0 BLOCK_SIZE
      (by omega) (source.drop current) (by rw [List.length_drop]; omega) (Nat.zero_add _).le
    have blocks : middle.numBlocks = memory.numBlocks := by rw [numBlocks, total]
    obtain ⟨memory', rest, total', view'⟩ := ih middle (i + 1) (current + BLOCK_SIZE)
      (by omega) (by omega)
    refine ⟨memory', ?_, total'.trans total, ?_⟩
    · rw [writeFullPages, bind_ok copied, rest]
      congr 1
      ring
    · have length : ((source.drop current).take BLOCK_SIZE).length = BLOCK_SIZE := by
        rw [List.length_take, List.length_drop]; omega
      rw [view', view, show (pages + 1) * BLOCK_SIZE = BLOCK_SIZE + pages * BLOCK_SIZE by ring, List.take_add,
        FlatMemory.write_append, length, List.drop_drop,
        show (page + (i + 1)) * BLOCK_SIZE = (page + i) * BLOCK_SIZE + BLOCK_SIZE by ring, Nat.add_zero]

/-- Writing inside memory replaces exactly the bytes of the flat view. -/
theorem writeMemory_flat {address size : Word} {source : List Byte} (aligned : memory.Aligned)
    (inside : address.toNat + size.toNat ≤ memory.TotalMemory.toNat)
    (started : address.toNat < memory.TotalMemory.toNat) (length : source.length = size.toNat) :
    ∃ memory', writeMemory address source size memory = .ok () memory' ∧
      memory'.TotalMemory = memory.TotalMemory ∧
      memory'.peek = FlatMemory.write memory.peek address.toNat source := by
  have mapped := first_block aligned started
  have start := Nat.div_add_mod' address.toNat BLOCK_SIZE
  have below : address.toNat % BLOCK_SIZE < BLOCK_SIZE := Nat.mod_lt _ (by decide)
  rw [writeMemory, bind_ok (get_apply memory), outOfRange_eq_false inside, if_neg Bool.false_ne_true]
  by_cases small : size.toNat ≤ BLOCK_SIZE - address.toNat % BLOCK_SIZE
  · simp only [if_pos small]
    obtain ⟨memory', copied, total, view⟩ := copyN_flat memory _ (address.toNat % BLOCK_SIZE) size.toNat mapped source
      length.ge (by omega)
    refine ⟨memory', copied, total, ?_⟩
    rw [view, start, ← length, List.take_length]
  · simp only [if_neg small, writePages]
    generalize first_eq : BLOCK_SIZE - address.toNat % BLOCK_SIZE = first at small ⊢
    generalize full_eq : (size.toNat - first) / BLOCK_SIZE = full
    generalize last_eq : (size.toNat - first) % BLOCK_SIZE = last
    obtain ⟨second, sizes, short, blocks, lastBlock⟩ :=
      pieces aligned inside (not_le.mp small) first_eq.symm full_eq.symm last_eq.symm
    obtain ⟨memory₁, copied, total₁, view₁⟩ := copyN_flat memory _ (address.toNat % BLOCK_SIZE) first mapped source
      (by omega) (by omega)
    have count₁ : memory₁.numBlocks = memory.numBlocks := by rw [numBlocks, total₁]
    obtain ⟨memory₂, looped, total₂, view₂⟩ := writeFullPages_flat memory₁
      (address.toNat / BLOCK_SIZE) source full 1 first (by omega) (by omega)
    have count₂ : memory₂.numBlocks = memory.numBlocks := by rw [numBlocks, total₂, total₁]
    rw [bind_ok copied, bind_ok looped]
    rw [start] at view₁
    have written : memory₂.peek = FlatMemory.write memory.peek address.toNat
        (source.take (first + full * BLOCK_SIZE)) := by
      rw [view₂, view₁, List.take_add, FlatMemory.write_append, List.length_take, ← second,
        Nat.min_eq_left (by omega)]
    by_cases nonempty : last > 0
    · rw [if_pos nonempty]
      obtain ⟨memory₃, finished, total₃, view₃⟩ := copyN_flat memory₂
        (address.toNat / BLOCK_SIZE + full + 1) 0 last (by have := lastBlock nonempty; omega)
        (source.drop (first + full * BLOCK_SIZE)) (by rw [List.length_drop]; omega) (by omega)
      refine ⟨memory₃, finished, by rw [total₃, total₂, total₁], ?_⟩
      have place : (address.toNat / BLOCK_SIZE + full + 1) * BLOCK_SIZE + 0 =
          address.toNat + (source.take (first + full * BLOCK_SIZE)).length := by
        rw [List.length_take, Nat.min_eq_left (by omega), ← Nat.add_assoc, second]
        ring
      have rest : (source.drop (first + full * BLOCK_SIZE)).take last = source.drop (first + full * BLOCK_SIZE) :=
        List.take_of_length_le (by rw [List.length_drop]; omega)
      rw [view₃, written, place, rest, ← FlatMemory.write_append, List.take_append_drop]
    · rw [if_neg nonempty]
      refine ⟨memory₂, rfl, by rw [total₂, total₁], ?_⟩
      rw [written, List.take_of_length_le (by omega)]

/-- A rejected access throws before anything is read or written. -/
theorem rejected {address size : Word} (source : List Byte) (reject : memory.outOfRange address size = true) :
    memory.readMemory address size = .error (.illegalMemoryAccess "Memory access out of bounds") ∧
      writeMemory address source size memory =
        .error (.illegalMemoryAccess "Memory access out of bounds") memory := by
  constructor
  · rw [readMemory, if_pos reject]
  · rw [writeMemory, bind_ok (get_apply memory), if_pos reject]
    rfl

/-- An access behaves as on the flat array: it reads exactly the addressed bytes, it replaces
exactly the addressed bytes, and neither subscripts a missing block nor throws. -/
def AgreesWithFlat (memory : PagedMemory) (address size : Word) : Prop :=
  memory.readMemory address size = .ok (FlatMemory.read memory.peek address.toNat size.toNat) ∧
    ∀ source : List Byte, source.length = size.toNat →
      ∃ memory', writeMemory address source size memory = .ok () memory' ∧
        memory'.TotalMemory = memory.TotalMemory ∧
        memory'.peek = FlatMemory.write memory.peek address.toNat source

/-- At the very end of memory the page number is the number of blocks. -/
theorem readMemory_end :
    memory.readMemory memory.TotalMemory 0 = .error .undefined := by
  have zero : (0 : Word).toNat = 0 := rfl
  have inside : memory.TotalMemory.toNat + (0 : Word).toNat ≤ memory.TotalMemory.toNat := le_rfl
  have missing : ¬ (memory.TotalMemory.toNat / BLOCK_SIZE < memory.numBlocks ∧
      memory.TotalMemory.toNat % BLOCK_SIZE + 0 ≤ BLOCK_SIZE) := fun mapped => lt_irrefl _ mapped.1
  rw [readMemory, outOfRange_eq_false inside, if_neg Bool.false_ne_true]
  simp only [zero, Nat.zero_le, ↓reduceIte]
  rw [readBlock, dif_neg missing]

theorem writeMemory_end (source : List Byte) :
    writeMemory memory.TotalMemory source 0 memory = .error .undefined memory := by
  have zero : (0 : Word).toNat = 0 := rfl
  have inside : memory.TotalMemory.toNat + (0 : Word).toNat ≤ memory.TotalMemory.toNat := le_rfl
  rw [writeMemory, bind_ok (get_apply memory), outOfRange_eq_false inside, if_neg Bool.false_ne_true]
  simp only [zero, Nat.zero_le, ↓reduceIte]
  rw [copyN, bind_ok (get_apply memory), dif_neg (lt_irrefl memory.numBlocks)]
  rfl

/-- The paged memory refines the flat array on every access inside it that does not start at its
end, and a rejected access changes nothing. An access that starts at the end is empty, and its
block index is out of range. -/
theorem agreesWithFlat_iff (memory : PagedMemory) (aligned : memory.Aligned)
    (address size : Word) :
    (address.toNat + size.toNat ≤ memory.TotalMemory.toNat →
      (memory.AgreesWithFlat address size ↔ address ≠ memory.TotalMemory)) ∧
    (memory.outOfRange address size = true → ∀ source,
      memory.readMemory address size = .error (.illegalMemoryAccess "Memory access out of bounds") ∧
        writeMemory address source size memory =
          .error (.illegalMemoryAccess "Memory access out of bounds") memory) := by
  refine ⟨fun inside => ⟨?_, fun apart => ?_⟩, fun reject source => rejected source reject⟩
  · rintro ⟨reads, -⟩ rfl
    obtain rfl : size = 0 := BitVec.eq_of_toNat_eq (show size.toNat = 0 by omega)
    rw [readMemory_end] at reads
    cases reads
  · have started : address.toNat < memory.TotalMemory.toNat :=
      lt_of_le_of_ne (by omega) fun equal => apart (BitVec.eq_of_toNat_eq equal)
    exact ⟨readMemory_flat aligned inside started,
      fun source length => writeMemory_flat aligned inside started length⟩

/-- One block of zeros. -/
def oneBlock : PagedMemory where
  TotalMemory := 4096
  Memory := fun _ _ => 0

theorem oneBlock_aligned : oneBlock.Aligned := ⟨1, rfl⟩

theorem agreesWithFlat_oneBlock :
    oneBlock.AgreesWithFlat 4000 96 ∧ ¬ oneBlock.AgreesWithFlat 4096 0 :=
  ⟨((agreesWithFlat_iff oneBlock oneBlock_aligned 4000 96).1 (by decide)).mpr (by decide),
    fun agrees => ((agreesWithFlat_iff oneBlock oneBlock_aligned 4096 0).1 (by decide)).mp agrees rfl⟩

/-- Not every access inside memory agrees with the flat array: an empty read at the end of a
one-block memory subscripts a second block. -/
theorem not_agreesWithFlat_at_end :
    ¬ ∀ memory : PagedMemory, memory.Aligned → 0 < memory.TotalMemory.toNat → ∀ address size : Word,
      address.toNat + size.toNat ≤ memory.TotalMemory.toNat → memory.AgreesWithFlat address size := by
  intro claim
  have reads := (claim oneBlock oneBlock_aligned (by decide) 4096 0 (by decide)).1
  have fails : oneBlock.readMemory 4096 0 = .error .undefined := readMemory_end
  rw [fails] at reads
  cases reads

end PagedMemory

end Sysdarft
