import Sysdarft.Proofs.LinkedLayout
import Sysdarft.Model.Format

/-! # Relocation

The linker looks for the bytes of the placeholder in a chunk. An instruction is a row of cells, and the placeholder is
found only where a cell is the placeholder, because no cell is longer and none begins with the second byte of it or with
a byte of the blank address. So what is patched is always an operand, and a linked instruction is an instruction again.
-/

namespace Sysdarft.Coding

open Format

/-! ## Cells -/

/-- A piece of an instruction. -/
structure IsCell (cell : List Byte) : Prop where
  nonempty : cell ≠ []
  short : cell.length ≤ 10

/-- A byte that a cell may begin with, when it has another one in front of it. -/
def Begins (byte : Byte) : Prop := byte ≠ 0x64 ∧ byte ≠ 0xFF

instance beginsDecidable (byte : Byte) : Decidable (Begins byte) := inferInstanceAs (Decidable (_ ∧ _))

/-- What follows a cell. -/
def MayFollow (rest : List Byte) : Prop := ∀ byte ∈ rest.head?, Begins byte

section Cells

variable {cell rest replacement : List Byte} {cells : List (List Byte)}

theorem not_begins_placeholder :
    ∀ (place : ℕ) (inside : place < tmpAddressHex.length), 0 < place → ¬ Begins tmpAddressHex[place] := by
  decide

/-- The placeholder begins in a cell only when it is the whole of it. -/
theorem eq_of_placeholder (here : IsCell cell) (follows : MayFollow rest) (found : tmpAddressHex <+: cell ++ rest) :
    cell = tmpAddressHex := by
  rcases here.short.lt_or_eq with short | long
  · have inside : cell.length < tmpAddressHex.length := short
    have next := List.prefix_iff_getElem?.mp found cell.length inside
    rw [List.getElem?_append_right le_rfl, Nat.sub_self, ← List.head?_eq_getElem?] at next
    exact absurd (follows _ next) (not_begins_placeholder _ inside (List.length_pos_iff.mpr here.nonempty))
  · exact (List.IsPrefix.eq_of_length (List.prefix_of_prefix_length_le found (List.prefix_append _ _) long.ge)
      long.symm).symm

theorem IsCell.tail {byte : Byte} (here : IsCell (byte :: cell)) (more : cell ≠ []) : IsCell cell :=
  ⟨more, (Nat.le_succ _).trans here.short⟩

/-- In what is left of a cell nothing is found. -/
theorem tail_ne_placeholder {byte : Byte} (here : IsCell (byte :: cell)) : cell ≠ tmpAddressHex := by
  rintro rfl
  have short : 11 ≤ 10 := here.short
  omega

theorem countFrom_drop (skip : ℕ) (word : List Byte) (length : word.length = skip) :
    countFrom tmpAddressHex skip (word ++ rest) = countFrom tmpAddressHex 0 rest := by
  induction word generalizing skip with
  | nil =>
    obtain rfl := length
    rfl
  | cons byte word ih =>
    obtain rfl := length
    rw [List.cons_append, List.length_cons, countFrom]
    exact ih _ rfl

theorem countFrom_cell (here : IsCell cell) (follows : MayFollow rest) :
    countFrom tmpAddressHex 0 (cell ++ rest) = (if cell = tmpAddressHex then 1 else 0) + countFrom tmpAddressHex 0 rest := by
  induction cell with
  | nil => exact absurd rfl here.nonempty
  | cons byte cell ih =>
    rw [List.cons_append, countFrom]
    split_ifs with found same same
    · obtain ⟨rfl, tail⟩ := List.cons.inj same
      rw [countFrom_drop _ cell (by rw [tail]; rfl), Nat.add_comm]
    · exact absurd (eq_of_placeholder here follows (List.isPrefixOf_iff_prefix.mp found)) same
    · exact absurd (List.isPrefixOf_iff_prefix.mpr (same ▸ List.prefix_append _ _)) found
    · cases cell with
      | nil => rw [List.nil_append, Nat.zero_add]
      | cons next cell => rw [ih (here.tail (List.cons_ne_nil _ _)), if_neg (tail_ne_placeholder here)]

theorem replaceSequence_cell (here : IsCell cell) (follows : MayFollow rest) :
    replaceSequence tmpAddressHex replacement (cell ++ rest) =
      if cell = tmpAddressHex then replacement ++ rest else cell ++ replaceSequence tmpAddressHex replacement rest := by
  induction cell with
  | nil => exact absurd rfl here.nonempty
  | cons byte cell ih =>
    rw [List.cons_append, replaceSequence]
    split_ifs with found same same
    · rw [← List.cons_append, same, List.drop_left]
    · exact absurd (eq_of_placeholder here follows (List.isPrefixOf_iff_prefix.mp found)) same
    · exact absurd (List.isPrefixOf_iff_prefix.mpr (same ▸ List.prefix_append _ _)) found
    · cases cell with
      | nil => rfl
      | cons next cell => rw [ih (here.tail (List.cons_ne_nil _ _)), if_neg (tail_ne_placeholder here),
                            List.cons_append, List.cons_append, List.cons_append]

/-- Cells one behind the other. -/
inductive Row : List (List Byte) → Prop where
  | nil : Row []
  | cons {cell : List Byte} {cells : List (List Byte)} (here : IsCell cell) (follows : MayFollow cells.flatten)
    (row : Row cells) :
      Row (cell :: cells)

theorem countFrom_flatten (row : Row cells) : countFrom tmpAddressHex 0 cells.flatten = cells.count tmpAddressHex := by
  induction row with
  | nil => rfl
  | @cons cell cells here follows row ih =>
    rw [List.flatten_cons, countFrom_cell here follows, ih, List.count_cons, Nat.add_comm]
    simp only [beq_iff_eq]

/-- The only cell that is the placeholder is replaced. -/
theorem replaceSequence_flatten (row : Row cells) (once : cells.count tmpAddressHex ≤ 1) :
    replaceSequence tmpAddressHex replacement cells.flatten =
      (cells.map fun cell => if cell = tmpAddressHex then replacement else cell).flatten := by
  induction row with
  | nil => rfl
  | @cons cell cells here follows row ih =>
    rw [List.flatten_cons, replaceSequence_cell here follows, List.map_cons, List.flatten_cons]
    rw [List.count_cons] at once
    split_ifs with same
    · rw [if_pos (beq_iff_eq.mpr same)] at once
      have none : tmpAddressHex ∉ cells := List.count_eq_zero.mp (by omega)
      have kept : cells.map (fun cell => if cell = tmpAddressHex then replacement else cell) = cells.map id :=
        List.map_congr_left fun cell member => if_neg (ne_of_mem_of_not_mem member none)
      rw [kept, List.map_id]
    · rw [ih (by omega)]

end Cells

/-! ## Instructions -/

/-- A constant that the linker takes for a placeholder. -/
def IsBlank (constant : Constant) : Prop := constant.width = .w64 ∧ constant.value.toNat = Numerals.maxU64

instance isBlankDecidable (constant : Constant) : Decidable (IsBlank constant) := inferInstanceAs (Decidable (_ ∧ _))

def addressConstant (address : ℕ) : Constant := ⟨.w64, BitVec.ofNat 64 address⟩

def relocateConstant (address : ℕ) (constant : Constant) : Constant :=
  if IsBlank constant then addressConstant address else constant

def relocateParameter (address : ℕ) : Parameter → Parameter
  | .register name => .register name
  | .constant literal => .constant (relocateConstant address literal)

def relocateTarget (address : ℕ) : Target → Target
  | .register name => .register name
  | .constant literal => .constant (relocateConstant address literal)
  | .memory ratio width base offset1 offset2 =>
    .memory ratio width (relocateParameter address base) (relocateParameter address offset1)
    (relocateParameter address offset2)

/-- The instruction with an address for the placeholder. -/
def relocate (address : ℕ) (instruction : Instruction) : Instruction where
  mnemonic := instruction.mnemonic
  width := instruction.width
  operands := instruction.operands.map (relocateTarget address)
  widthed := instruction.widthed
  counted := (List.length_map _).trans instruction.counted

def parameterConstants : Parameter → List Constant
  | .register _ => []
  | .constant literal => [literal]

/-- The constants in an operand. -/
def targetConstants : Target → List Constant
  | .register _ => []
  | .constant literal => [literal]
  | .memory _ _ base offset1 offset2 => parameterConstants base ++ (parameterConstants offset1 ++ parameterConstants offset2)

/-- How many placeholders there are in an instruction. -/
def blanks (instruction : Instruction) : ℕ := (instruction.operands.flatMap targetConstants).countP fun constant =>
    IsBlank constant

/-- The cells of an operand. -/
def targetCells : Target → List (List Byte)
  | .register name => [registerBytes name]
  | .constant literal => [literal.bytes]
  | .memory ratio width base offset1 offset2 =>
    [[MEMORY_CODE, width.bcd], base.bytes, offset1.bytes, offset2.bytes, [ratio.bcd]]

def instructionCells (instruction : Instruction) : List (List Byte) :=
  (instruction.mnemonic.opcode :: (instruction.width.map Width.bcd).toList) :: instruction.operands.flatMap targetCells

section Instructions

variable {address : ℕ} {instruction : Instruction}

theorem isCell_register (register : Register) : IsCell (registerBytes register) :=
  ⟨List.cons_ne_nil _ _, show 3 ≤ 10 by decide⟩

theorem isCell_constant (constant : Constant) : IsCell constant.bytes := by
  refine ⟨List.cons_ne_nil _ _, ?_⟩
  rw [Constant.bytes, List.length_cons, List.length_cons, LittleEndian.length_bytes]
  cases constant.width <;> decide

theorem isCell_parameter (parameter : Parameter) : IsCell parameter.bytes := by
  cases parameter with
  | register name => exact isCell_register name
  | constant literal => exact isCell_constant literal

theorem mayFollow_cons {byte : Byte} {rest : List Byte} (begins : Begins byte) : MayFollow (byte :: rest) :=
  fun _ head => Option.some.inj head ▸ begins

theorem mayFollow_parameter (parameter : Parameter) (rest : List Byte) : MayFollow (parameter.bytes ++ rest) := by
  cases parameter with
  | register name => exact mayFollow_cons (by decide)
  | constant literal => exact mayFollow_cons (by decide)

theorem mayFollow_target (target : Target) (rest : List Byte) : MayFollow (target.bytes ++ rest) := by
  cases target with
  | register name => exact mayFollow_cons (by decide)
  | constant literal => exact mayFollow_cons (by decide)
  | memory ratio width base offset1 offset2 => exact mayFollow_cons (by decide)

theorem flatten_targetCells (target : Target) : (targetCells target).flatten = target.bytes := by
  cases target with
  | register name => exact List.append_nil _
  | constant literal => exact List.append_nil _
  | memory ratio width base offset1 offset2 => simp [targetCells, Target.bytes]

theorem flatten_operands (targets : List Target) : (targets.flatMap targetCells).flatten =
    (targets.map Target.bytes).flatten := by
  induction targets with
  | nil => rfl
  | cons target targets ih =>
    rw [List.flatMap_cons, List.flatten_append, flatten_targetCells, ih, List.map_cons, List.flatten_cons]

theorem flatten_instructionCells (instruction : Instruction) :
    (instructionCells instruction).flatten = instruction.bytes := by
  rw [instructionCells, List.flatten_cons, flatten_operands, Instruction.bytes, List.cons_append]

theorem mayFollow_operands (targets : List Target) : MayFollow (targets.flatMap targetCells).flatten := by
  cases targets with
  | nil => exact fun byte head => by cases head
  | cons target targets =>
    rw [List.flatMap_cons, List.flatten_append, flatten_targetCells]
    exact mayFollow_target target _

theorem row_target {cells : List (List Byte)} (target : Target) (follows : MayFollow cells.flatten) (row : Row cells) :
    Row (targetCells target ++ cells) := by
  cases target with
  | register name => exact .cons (isCell_register name) follows row
  | constant literal => exact .cons (isCell_constant literal) follows row
  | memory ratio width base offset1 offset2 =>
    have front : IsCell [MEMORY_CODE, width.bcd] := ⟨List.cons_ne_nil _ _, show 2 ≤ 10 by decide⟩
    have back : IsCell [ratio.bcd] := ⟨List.cons_ne_nil _ _, show 1 ≤ 10 by decide⟩
    have last : MayFollow (ratio.bcd :: cells.flatten) := mayFollow_cons (by cases ratio <;> decide)
    exact .cons front (mayFollow_parameter base _) (.cons (isCell_parameter base) (mayFollow_parameter offset1 _)
      (.cons (isCell_parameter offset1) (mayFollow_parameter offset2 _)
        (.cons (isCell_parameter offset2) last (.cons back follows row))))

theorem row_operands (targets : List Target) : Row (targets.flatMap targetCells) := by
  induction targets with
  | nil => exact .nil
  | cons target targets ih => exact row_target target (mayFollow_operands targets) ih

theorem length_front (instruction : Instruction) :
    (instruction.mnemonic.opcode :: (instruction.width.map Width.bcd).toList).length < 10 := by
  cases instruction.width with
  | none => exact show 1 < 10 by decide
  | some width => exact show 2 < 10 by decide

theorem row_instruction (instruction : Instruction) : Row (instructionCells instruction) :=
  .cons ⟨List.cons_ne_nil _ _, (length_front instruction).le⟩ (mayFollow_operands _) (row_operands _)

/-! ### What is patched -/

theorem constant_bytes_eq (constant : Constant) : constant.bytes = tmpAddressHex ↔ IsBlank constant := by
  have blank : tmpAddressHex = CONSTANT_CODE :: Width.w64.bcd :: LittleEndian.bytes Width.w64.bytes Numerals.maxU64 := by
    decide
  have small := constant.value.isLt
  rw [blank, Constant.bytes, List.cons.injEq, List.cons.injEq, IsBlank]
  generalize constant.value.toNat = number at small ⊢
  generalize constant.width = width at small ⊢
  constructor
  · rintro ⟨-, code, payload⟩
    obtain rfl : width = .w64 := by
      have same := congrArg Width.ofBcd code
      rw [Width.ofBcd_bcd, Width.ofBcd_bcd] at same
      exact Option.some.inj same
    exact ⟨rfl, (Nat.mod_eq_of_lt small).symm.trans (LittleEndian.bytes_inj.mp payload)⟩
  · rintro ⟨rfl, rfl⟩
    exact ⟨rfl, rfl, rfl⟩

theorem addressConstant_bytes (address : ℕ) : (addressConstant address).bytes = encodeConstantFromUint64 address := by
  rw [encodeConstantFromUint64, Constant.bytes]
  change _ :: _ :: LittleEndian.bytes 8 (BitVec.ofNat 64 address).toNat = _
  rw [BitVec.toNat_ofNat]
  exact congrArg (fun bytes => _ :: _ :: bytes) (LittleEndian.bytes_mod 8 address)

/-- A cell with the address put in. -/
def patch (address : ℕ) (cell : List Byte) :
    List Byte := if cell = tmpAddressHex then encodeConstantFromUint64 address else cell

theorem patch_constant (constant : Constant) : patch address constant.bytes = (relocateConstant address constant).bytes := by
  rw [patch, relocateConstant, if_congr (constant_bytes_eq constant) rfl rfl]
  split_ifs
  · exact (addressConstant_bytes address).symm
  · rfl

theorem patch_short {cell : List Byte} (short : cell.length < 10) : patch address cell = cell :=
  if_neg fun same => absurd (same ▸ short) (by decide)

theorem patch_parameter (parameter : Parameter) : patch address parameter.bytes =
    (relocateParameter address parameter).bytes := by
  cases parameter with
  | register name => exact patch_short (show 3 < 10 by decide)
  | constant literal => exact patch_constant literal

theorem patch_target (target : Target) :
    (targetCells target).map (patch address) = targetCells (relocateTarget address target) := by
  cases target with
  | register name => exact congrArg (fun cell => [cell]) (patch_short (show 3 < 10 by decide))
  | constant literal => exact congrArg (fun cell => [cell]) (patch_constant literal)
  | memory ratio width base offset1 offset2 =>
    have front : patch address [MEMORY_CODE, width.bcd] = [MEMORY_CODE, width.bcd] := patch_short (show 2 < 10 by decide)
    have back : patch address [ratio.bcd] = [ratio.bcd] := patch_short (show 1 < 10 by decide)
    simp only [targetCells, relocateTarget, List.map_cons, List.map_nil, patch_parameter, front, back]

theorem patch_instruction (instruction : Instruction) :
    (instructionCells instruction).map (patch address) = instructionCells (relocate address instruction) := by
  have each (targets : List Target) :
      (targets.flatMap targetCells).map (patch address) = (targets.map (relocateTarget address)).flatMap targetCells := by
    rw [List.map_flatMap, List.flatMap_map]
    exact List.flatMap_congr fun target _ => patch_target target
  rw [instructionCells, List.map_cons, patch_short (length_front instruction), each, instructionCells]
  rfl

/-- What is patched is an operand. -/
theorem replaceSequence_bytes (once : countSequence instruction.bytes tmpAddressHex = 1) :
    replaceSequence tmpAddressHex (encodeConstantFromUint64 address) instruction.bytes =
    (relocate address instruction).bytes := by
  have row := row_instruction instruction
  have count : (instructionCells instruction).count tmpAddressHex ≤ 1 := by
    rw [countSequence] at once
    split_ifs at once
    rw [← countFrom_flatten row, flatten_instructionCells, once]
  rw [← flatten_instructionCells, replaceSequence_flatten row count, ← flatten_instructionCells, ← patch_instruction]
  rfl

/-! ### What is counted -/

theorem count_short {cell : List Byte} (short : cell.length < 10) : [cell].count tmpAddressHex = 0 :=
  List.count_eq_zero.mpr fun member => absurd (List.mem_singleton.mp member ▸ short) (by decide)

theorem count_constant (constant : Constant) : [constant.bytes].count tmpAddressHex =
    [constant].countP fun constant => IsBlank constant := by
  rw [List.count_singleton, List.countP_singleton]
  simp only [beq_iff_eq, constant_bytes_eq, decide_eq_true_eq]

theorem count_parameter (parameter : Parameter) :
    [parameter.bytes].count tmpAddressHex = (parameterConstants parameter).countP fun constant => IsBlank constant := by
  cases parameter with
  | register name => exact count_short (show 3 < 10 by decide)
  | constant literal => exact count_constant literal

theorem count_target (target : Target) :
    (targetCells target).count tmpAddressHex = (targetConstants target).countP fun constant => IsBlank constant := by
  cases target with
  | register name => exact count_short (show 3 < 10 by decide)
  | constant literal => exact count_constant literal
  | memory ratio width base offset1 offset2 =>
    have front : [[MEMORY_CODE, width.bcd]].count tmpAddressHex = 0 := count_short (show 2 < 10 by decide)
    have back : [[ratio.bcd]].count tmpAddressHex = 0 := count_short (show 1 < 10 by decide)
    have split : targetCells (.memory ratio width base offset1 offset2) =
        [[MEMORY_CODE, width.bcd]] ++ ([base.bytes] ++ ([offset1.bytes] ++ ([offset2.bytes] ++ [[ratio.bcd]]))) := rfl
    rw [split, List.count_append, List.count_append, List.count_append, List.count_append, front, back,
      count_parameter, count_parameter,
      count_parameter, targetConstants, List.countP_append, List.countP_append, Nat.zero_add, Nat.add_zero]

theorem count_instruction (instruction : Instruction) :
    (instructionCells instruction).count tmpAddressHex = blanks instruction := by
  have front := count_short (length_front instruction)
  have split : instructionCells instruction = [instruction.mnemonic.opcode :: (instruction.width.map Width.bcd).toList] ++
      instruction.operands.flatMap targetCells := rfl
  rw [split, List.count_append, front, Nat.zero_add, blanks]
  induction instruction.operands with
  | nil => rfl
  | cons target targets ih =>
    rw [List.flatMap_cons, List.flatMap_cons, List.count_append, List.countP_append, count_target, ih]

theorem countSequence_bytes (instruction : Instruction) :
    countSequence instruction.bytes tmpAddressHex = blanks instruction := by
  have row := row_instruction instruction
  have count := (countFrom_flatten row).trans (count_instruction instruction)
  rw [flatten_instructionCells] at count
  rw [countSequence]
  split_ifs with short
  · have small := short.resolve_left (List.cons_ne_nil _ _)
    by_contra some
    have occurs := infix_of_countFrom (count ▸ Nat.pos_of_ne_zero (Ne.symm some))
    exact absurd occurs.length_le (not_le.mpr small)
  · exact count

/-- The linker accepts a reference in an instruction exactly when the instruction has one placeholder, and then it puts the
address in the operand and keeps everything else. -/
theorem linkInstruction_relocates {name : List Char} {code code' : List (List Byte)} {chunk : ℕ}
    (here : code[chunk]? = some instruction.bytes) :
    linkInstruction name (encodeConstantFromUint64 address) code chunk = .ok code' ↔
      blanks instruction = 1 ∧ code' = code.set chunk (relocate address instruction).bytes := by
  have known : code.getD chunk [] = instruction.bytes := by rw [List.getD_eq_getElem?_getD, here, Option.getD_some]
  rw [linkInstruction, known, countSequence_bytes]
  split_ifs with other
  · exact iff_of_false (fun done => by cases done) fun both => other both.1
  · have once := (countSequence_bytes instruction).trans (not_not.mp other)
    rw [replaceSequence_bytes once, Except.ok.injEq, and_iff_right (not_not.mp other)]
    exact eq_comm

/-- `JMP <%CB>, <foo>`, with the label at 30. -/
def jumpInstruction : Instruction :=
  ⟨.jmp, none, [.register (.special .codeBase), .constant (addressConstant Numerals.maxU64)], widthed_none, rfl⟩

theorem linkInstruction_relocates_jump :
    linkInstruction "foo".toList (encodeConstantFromUint64 30) [[0x00], jumpInstruction.bytes] 1 =
        .ok [[0x00], (relocate 30 jumpInstruction).bytes] ↔
      blanks jumpInstruction = 1 ∧ [[0x00], (relocate 30 jumpInstruction).bytes] =
        [[0x00], jumpInstruction.bytes].set 1 (relocate 30 jumpInstruction).bytes :=
  linkInstruction_relocates rfl

end Instructions

end Sysdarft.Coding
