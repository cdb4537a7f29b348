import Sysdarft.Library.FlatMemory
import Sysdarft.Library.Effects
import Sysdarft.Model.InstructionSet

/-! # Paged memory

`SysdarftCPUMemoryAccess` keeps the guest memory as a vector of 4096-byte blocks. `readMemory` and
`writeMemory` follow `read_memory` and `write_memory`: a range check in 64-bit arithmetic, a first
partial block, a loop over full blocks and a last partial block. An index outside the vector or
outside a block, which the source does not check when it reads, is the outcome `undefined`.

A throw keeps whatever the function had written before it.
-/

namespace Sysdarft

def BLOCK_SIZE : ℕ := 4096

abbrev Block := Fin BLOCK_SIZE → Byte

/-- The memory of a machine. The constructor allocates `TotalMemory / BLOCK_SIZE` blocks. -/
structure PagedMemory where
  TotalMemory : Word
  Memory : Fin (TotalMemory.toNat / BLOCK_SIZE) → Block

inductive MemoryFault where
  | illegalMemoryAccess (message : String)
  | undefined
deriving DecidableEq, Repr

namespace PagedMemory

abbrev numBlocks (memory : PagedMemory) : ℕ := memory.TotalMemory.toNat / BLOCK_SIZE

/-- Memory sizes that the block vector covers completely. -/
def Aligned (memory : PagedMemory) : Prop := BLOCK_SIZE ∣ memory.TotalMemory.toNat

/-- The flat view: the byte at an address. -/
def peek (memory : PagedMemory) (address : ℕ) : Byte :=
  if mapped : address / BLOCK_SIZE < memory.numBlocks then
    memory.Memory ⟨address / BLOCK_SIZE, mapped⟩ ⟨address % BLOCK_SIZE, Nat.mod_lt _ (by decide)⟩
  else 0

/-- `address > TotalMemory || (address + size) > TotalMemory`. -/
def outOfRange (memory : PagedMemory) (address size : Word) : Bool :=
  decide (memory.TotalMemory < address) || decide (memory.TotalMemory < address + size)

/-- `memcpy` out of one block. -/
def readBlock (memory : PagedMemory) (page offset count : ℕ) : Except MemoryFault (List Byte) :=
  if mapped : page < memory.numBlocks ∧ offset + count ≤ BLOCK_SIZE then
    .ok ((List.range count).map fun i =>
      if inside : offset + i < BLOCK_SIZE then memory.Memory ⟨page, mapped.1⟩ ⟨offset + i, inside⟩ else 0)
  else .error .undefined

/-- The loop over full pages; `i` is the next page to copy. -/
def readFullPages (memory : PagedMemory) (page_address : ℕ) : (pages i : ℕ) → Except MemoryFault (List Byte)
  | 0, _ => .ok []
  | pages + 1, i => do
    let chunk ← memory.readBlock (page_address + i) 0 BLOCK_SIZE
    let rest ← memory.readFullPages page_address pages (i + 1)
    return chunk ++ rest

/-- The leftover on the page after the full ones, when there is one. -/
def readLastPage (memory : PagedMemory) (page leftover_on_last_page : ℕ) : Except MemoryFault (List Byte) :=
  if leftover_on_last_page > 0 then memory.readBlock page 0 leftover_on_last_page else .ok []

def readMemory (memory : PagedMemory) (address size : Word) : Except MemoryFault (List Byte) :=
  if memory.outOfRange address size then
    .error (.illegalMemoryAccess "Memory access out of bounds")
  else
    let page_address := address.toNat / BLOCK_SIZE
    let page_offset := address.toNat % BLOCK_SIZE
    if size.toNat ≤ BLOCK_SIZE - page_offset then
      memory.readBlock page_address page_offset size.toNat
    else do
      let leftover_on_first_page := BLOCK_SIZE - page_offset
      let rest_size := size.toNat - leftover_on_first_page
      let full_pages := rest_size / BLOCK_SIZE
      let leftover_on_last_page := rest_size % BLOCK_SIZE
      let first ← memory.readBlock page_address page_offset leftover_on_first_page
      let middle ← memory.readFullPages page_address full_pages 1
      let last ← memory.readLastPage (page_address + full_pages + 1) leftover_on_last_page
      return first ++ middle ++ last

/-- Replace one block. -/
def setBlock (memory : PagedMemory) (page : Fin memory.numBlocks) (block : Block) : PagedMemory :=
  { TotalMemory := memory.TotalMemory, Memory := Function.update memory.Memory page block }

/-- The byte copy of `copy_n` into a block. -/
def copyInto (block : Block) (offset : ℕ) (src : List Byte) (count : ℕ) : Block :=
  fun i => if offset ≤ i ∧ i < offset + count then src.getD (i - offset) 0 else block i

/-- `copy_n(Memory[page], offset, src, count)`. -/
def copyN (page offset : ℕ) (src : List Byte) (count : ℕ) : EStateM MemoryFault PagedMemory Unit := do
  let memory ← get
  if mapped : page < memory.numBlocks then
    if offset + count > BLOCK_SIZE then
      throw (.illegalMemoryAccess "Memory write out of bounds")
    else
      set (memory.setBlock ⟨page, mapped⟩ (copyInto (memory.Memory ⟨page, mapped⟩) offset src count))
  else throw .undefined

/-- The loop over full pages of `write_memory`; the result is the final `current_offset`. -/
def writeFullPages (page_address : ℕ) (source : List Byte) :
    (pages i current_offset : ℕ) → EStateM MemoryFault PagedMemory ℕ
  | 0, _, current_offset => return current_offset
  | pages + 1, i, current_offset => do
    copyN (page_address + i) 0 (source.drop current_offset) BLOCK_SIZE
    writeFullPages page_address source pages (i + 1) (current_offset + BLOCK_SIZE)

/-- The writes of a transfer that leaves its first block. -/
def writePages (page_address page_offset : ℕ) (source : List Byte) (size : ℕ) :
    EStateM MemoryFault PagedMemory Unit := do
  let leftover_on_first_page := BLOCK_SIZE - page_offset
  let rest_size := size - leftover_on_first_page
  let full_pages := rest_size / BLOCK_SIZE
  let leftover_on_last_page := rest_size % BLOCK_SIZE
  copyN page_address page_offset source leftover_on_first_page
  let current_offset ← writeFullPages page_address source full_pages 1 leftover_on_first_page
  if leftover_on_last_page > 0 then
    copyN (page_address + full_pages + 1) 0 (source.drop current_offset) leftover_on_last_page

def writeMemory (address : Word) (source : List Byte) (size : Word) :
    EStateM MemoryFault PagedMemory Unit := do
  let memory ← get
  if memory.outOfRange address size then
    throw (.illegalMemoryAccess "Memory access out of bounds")
  else
    let page_address := address.toNat / BLOCK_SIZE
    let page_offset := address.toNat % BLOCK_SIZE
    if size.toNat ≤ BLOCK_SIZE - page_offset then
      copyN page_address page_offset source size.toNat
    else writePages page_address page_offset source size.toNat

/-! ## The size of memory never changes -/

open Effects in
theorem copyN_sized (page offset : ℕ) (src : List Byte) (count : ℕ) :
    Keeps TotalMemory (copyN page offset src count) := by
  apply keeps_get_bind
  intro memory
  split_ifs <;> rfl

open Effects in
theorem writeFullPages_sized (page_address : ℕ) (source : List Byte) (pages i current_offset : ℕ) :
    Keeps TotalMemory (writeFullPages page_address source pages i current_offset) := by
  induction pages generalizing i current_offset with
  | zero => exact keeps_pure _
  | succ pages ih => exact keeps_bind (copyN_sized _ _ _ _) fun _ => ih (i + 1) (current_offset + BLOCK_SIZE)

open Effects in
theorem writeMemory_sized (address : Word) (source : List Byte) (size : Word) :
    Keeps TotalMemory (writeMemory address source size) := by
  refine keeps_bind keeps_get fun memory => keeps_ite (keeps_throw _) (keeps_ite (copyN_sized _ _ _ _) ?_)
  exact keeps_bind (copyN_sized _ _ _ _) fun _ => keeps_bind (writeFullPages_sized _ _ _ _ _) fun _ =>
    keeps_ite (copyN_sized _ _ _ _) (keeps_pure _)

end PagedMemory

end Sysdarft
