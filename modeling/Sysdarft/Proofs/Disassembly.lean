import Sysdarft.Coding.Disassemble
import Sysdarft.Proofs.DisassemblerFormat
import Sysdarft.Proofs.WholeWord

/-! # What a disassembly shows

Bytes that are no instruction are written when the next instruction is. The loop writes everything else at once or,
for a run of NOPs, with the notice at its end, so only such bytes at the end of the area can be missing.
-/

namespace Sysdarft.Coding

open Effects

/-! ## Taking bytes -/

section Taking

/-- What is left of an input. -/
def Suffix (whole input : List Byte) : Prop := input <:+ whole

variable {whole : List Byte}

theorem suffix_codeBufferPop (count : ℕ) : Preserves (Suffix whole) (codeBufferPop count) := by
  induction count with
  | zero => exact preserves_pure _
  | succ count ih =>
    rw [codeBufferPop]
    refine preserves_get_bind fun input suffix => ?_
    cases input with
    | nil => exact preserves_throw _
    | cons byte input =>
      intro s _
      have left : Suffix whole input := (List.suffix_cons byte input).trans suffix
      exact preserves_bind ih (fun _ => preserves_pure _) input left

theorem suffix_codeBufferPop8 : Preserves (Suffix whole) codeBufferPop8 :=
  preserves_bind (suffix_codeBufferPop 1) fun _ => preserves_pure _

theorem suffix_decodeConstant : Preserves (Suffix whole) decodeConstant := by
  refine preserves_bind suffix_codeBufferPop8 fun code => ?_
  cases Width.ofBcd code with
  | none => exact preserves_pure _
  | some width => exact preserves_bind (suffix_codeBufferPop _) fun _ => preserves_pure _

theorem suffix_decodeRegister : Preserves (Suffix whole) decodeRegister := by
  refine preserves_bind suffix_codeBufferPop8 fun size => preserves_bind suffix_codeBufferPop8 fun index => ?_
  cases registerLiteral size index with
  | none => exact preserves_pure _
  | some name => exact preserves_pure _

theorem suffix_decodeEachParameter : Preserves (Suffix whole) decodeEachParameter := by
  refine preserves_bind suffix_codeBufferPop8 fun code => preserves_ite (fun _ => ?_) fun _ =>
    preserves_ite (fun _ => ?_) fun _ => ?_
  · exact preserves_bind suffix_decodeRegister fun _ => preserves_pure _
  · exact preserves_bind suffix_decodeConstant fun _ => preserves_pure _
  · exact preserves_pure _

theorem suffix_decodeMemory : Preserves (Suffix whole) decodeMemory := by
  refine preserves_bind suffix_codeBufferPop8 fun code => ?_
  cases Width.ofBcd code with
  | none => exact preserves_pure _
  | some width =>
    refine preserves_bind suffix_decodeEachParameter fun base => ?_
    cases base with
    | none => exact preserves_pure _
    | some base =>
      refine preserves_bind suffix_decodeEachParameter fun offset1 => ?_
      cases offset1 with
      | none => exact preserves_pure _
      | some offset1 =>
        refine preserves_bind suffix_decodeEachParameter fun offset2 => ?_
        cases offset2 with
        | none => exact preserves_pure _
        | some offset2 =>
          refine preserves_bind suffix_codeBufferPop8 fun code => ?_
          cases Ratio.ofBcd code with
          | none => exact preserves_pure _
          | some ratio => exact preserves_pure _

theorem suffix_decodeTarget : Preserves (Suffix whole) decodeTarget := by
  refine preserves_bind suffix_codeBufferPop8 fun code => preserves_ite (fun _ => suffix_decodeRegister) fun _ =>
    preserves_ite (fun _ => suffix_decodeConstant) fun _ => preserves_ite (fun _ => suffix_decodeMemory) fun _ => ?_
  exact preserves_pure _

theorem suffix_decodeOperands (argument_count remaining : ℕ) (buffer : List Char) :
    Preserves (Suffix whole) (decodeOperands argument_count remaining buffer) := by
  induction remaining generalizing buffer with
  | zero => exact preserves_pure _
  | succ remaining ih =>
    rw [decodeOperands]
    refine preserves_bind (preserves_tryCatch (preserves_bind suffix_decodeTarget fun _ => preserves_pure _)
      fun _ => preserves_pure _) fun operands => ?_
    cases operands with
    | none => exact preserves_pure _
    | some operands => exact ih _

theorem suffix_decodeRest (mnemonic : Mnemonic) (op_width : Option Width) :
    Preserves (Suffix whole) (decodeRest mnemonic op_width) := by
  refine preserves_bind (suffix_decodeOperands _ _ _) fun buffer => ?_
  cases buffer with
  | none => exact preserves_pure _
  | some buffer => exact preserves_pure _

/-- What follows the opcode in `decode_instruction`. -/
def decodeBehind (instruction : Byte) : Disassembler (List (List Char)) :=
  match findOpcode instruction with
  | none => return [badNbit instruction]
  | some mnemonic =>
    if mnemonic.requiresWidth then do
      let op_width ← codeBufferPop8
      match Width.ofBcd op_width with
      | none => return [badNbit instruction, badNbit op_width]
      | some width => decodeRest mnemonic (some width)
    else decodeRest mnemonic none

theorem decodeInstructionBody_cons (instruction : Byte) (input : List Byte) :
    decodeInstructionBody (instruction :: input) = decodeBehind instruction input := by
  rw [decodeInstructionBody, bind_ok (codeBufferPop8_cons ..)]
  rfl

theorem suffix_decodeBehind (instruction : Byte) : Preserves (Suffix whole) (decodeBehind instruction) := by
  rw [decodeBehind]
  cases findOpcode instruction with
  | none => exact preserves_pure _
  | some mnemonic =>
    refine preserves_ite (fun _ => preserves_bind suffix_codeBufferPop8 fun op_width => ?_) fun _ => suffix_decodeRest _ _
    cases Width.ofBcd op_width with
    | none => exact preserves_pure _
    | some width => exact suffix_decodeRest _ _

/-- `decode_instruction` takes bytes off the front, the opcode at least. -/
theorem decodeInstruction_suffix (byte : Byte) (input : List Byte) : (decodeInstruction (byte :: input)).2 <:+ input := by
  have suffix := suffix_decodeBehind byte input (List.suffix_refl input)
  rw [decodeInstruction, decodeInstructionBody_cons]
  cases decoded : decodeBehind byte input with
  | ok output left =>
    rw [decoded] at suffix
    exact suffix
  | error cause left =>
    rw [decoded] at suffix
    exact suffix

end Taking

/-! ## The instruction without operands -/

section Nops

variable {input left : List Byte} {mnemonic : Mnemonic} {op_width : Option Width}

/-- The operands are printed behind what is printed already. -/
theorem decodeOperands_prefix {argument_count remaining : ℕ} {buffer printed : List Char}
    (decoded : decodeOperands argument_count remaining buffer input = .ok (some printed) left) :
    buffer <+: printed ∧ (printed = buffer → left = input) := by
  induction remaining generalizing buffer input with
  | zero =>
    cases decoded
    exact ⟨List.prefix_refl _, fun _ => rfl⟩
  | succ remaining ih =>
    rw [decodeOperands] at decoded
    obtain ⟨operands, middle, -, decoded⟩ := bind_eq_ok.mp decoded
    cases operands with
    | none => cases decoded
    | some operands =>
      obtain ⟨longer, -⟩ := ih decoded
      have shape : ∃ more, buffer ++ (" <".toList ++ more) <+: printed := by
        split_ifs at longer
        · exact ⟨_, by simpa only [List.append_assoc] using longer⟩
        · exact ⟨_, by simpa only [List.append_assoc] using longer⟩
      obtain ⟨more, longer⟩ := shape
      refine ⟨(List.prefix_append _ _).trans longer, fun same => ?_⟩
      have length := longer.length_le
      rw [same, List.length_append, List.length_append, show " <".toList.length = 2 from rfl] at length
      omega

theorem eq_nop_of_name (starts : mnemonic.name <+: "NOP".toList) : mnemonic = .nop := by
  cases mnemonic <;> first | rfl | exact absurd starts (by decide)

theorem badNbit_ne_nop (data : Byte) : badNbit data ≠ "NOP".toList := by
  intro same
  exact absurd (congrArg List.head? same) (by decide : some '.' ≠ some 'N')

theorem decodeRest_nop {lines : List (List Char)} (decoded : decodeRest mnemonic op_width input = .ok lines left)
    (nop : lines.head? = some "NOP".toList) : mnemonic = .nop ∧ left = input := by
  rw [decodeRest] at decoded
  obtain ⟨printed, middle, operands, decoded⟩ := bind_eq_ok.mp decoded
  cases printed with
  | none =>
    cases decoded
    exact absurd (Option.some.inj nop) (badNbit_ne_nop _)
  | some printed =>
    cases decoded
    obtain rfl := Option.some.inj nop
    obtain ⟨starts, whole⟩ := decodeOperands_prefix operands
    obtain rfl := eq_nop_of_name ((List.prefix_append _ _).trans starts)
    cases op_width with
    | none => exact ⟨rfl, whole rfl⟩
    | some width => cases width <;> exact absurd starts.length_le (by decide)

theorem decodeBehind_nop {byte : Byte} {lines : List (List Char)} (decoded : decodeBehind byte input = .ok lines left)
    (nop : lines.head? = some "NOP".toList) : byte = 0x00 ∧ left = input := by
  rw [decodeBehind] at decoded
  cases found : findOpcode byte with
  | none =>
    rw [found] at decoded
    cases decoded
    exact absurd (Option.some.inj nop) (badNbit_ne_nop byte)
  | some mnemonic =>
    rw [found] at decoded
    have code := opcode_of_findOpcode found
    dsimp only at decoded
    split_ifs at decoded with wide
    · obtain ⟨op_width, middle, -, decoded⟩ := bind_eq_ok.mp decoded
      cases known : Width.ofBcd op_width with
      | none =>
        rw [known] at decoded
        cases decoded
        exact absurd (Option.some.inj nop) (badNbit_ne_nop byte)
      | some width =>
        rw [known] at decoded
        obtain ⟨rfl, -⟩ := decodeRest_nop decoded nop
        exact absurd wide (by decide)
    · obtain ⟨rfl, rfl⟩ := decodeRest_nop decoded nop
      exact ⟨code.symm, rfl⟩

/-- What is printed as a NOP is a single zero byte. -/
theorem decodeInstruction_nop {byte : Byte} (nop : (decodeInstruction (byte :: input)).1.head? = some "NOP".toList) :
    byte = 0x00 ∧ (decodeInstruction (byte :: input)).2 = input := by
  rw [decodeInstruction, decodeInstructionBody_cons] at nop ⊢
  cases decoded : decodeBehind byte input with
  | error cause left =>
    rw [decoded] at nop
    cases nop
  | ok lines left =>
    rw [decoded] at nop
    exact decodeBehind_nop decoded nop

end Nops

/-! ## What is shown -/

/-- The address of a byte of the area. -/
def addressOf (org : Word) (position : ℕ) : Word := BitVec.ofNat 64 position + org

/-- Blocks that show, in order, the bytes from one position on up to another one. Symbols show nothing. A notice that
the bytes from some position on are padding may come after lines for the first of them. -/
inductive Shows (org : Word) (code : List Byte) : ℕ → List Block → ℕ → Prop
  | done {position} : Shows org code position [] position
  | symbol {position last blocks name} (later : Shows org code position blocks last) :
      Shows org code position (.symbol name :: blocks) last
  | line {position last blocks binary literal} (bytes : binary <+: code.drop position)
      (later : Shows org code (position + binary.length) blocks last) :
      Shows org code position (.line (addressOf org position) binary literal :: blocks) last
  | dump {position last blocks data} (bytes : data <+: code.drop position)
      (later : Shows org code (position + data.length) blocks last) :
      Shows org code position (.dump (addressOf org position) data :: blocks) last
  | padding {position last blocks first appearances} (begun : first ≤ position) (inside : position ≤ first + appearances)
      (zeros : List.replicate appearances 0x00 <+: code.drop first)
      (later : Shows org code (first + appearances) blocks last) :
      Shows org code position (.padding appearances (addressOf org first) :: blocks) last

/-- The last item that `decode_instruction` takes is no instruction. -/
inductive EndsBad : List Byte → Prop
  | last {code} (nonempty : code ≠ []) (whole : (decodeInstruction code).2 = [])
      (bad : isBadData (decodeInstruction code).1 = true) : EndsBad code
  | next {code} (nonempty : code ≠ []) (later : EndsBad (decodeInstruction code).2) : EndsBad code

section Showing

variable {org : Word} {code : List Byte} {blocks more : List Block} {position middle last : ℕ}

theorem Shows.append (first : Shows org code position blocks middle) (second : Shows org code middle more last) :
    Shows org code position (blocks ++ more) last := by
  induction first with
  | done => exact second
  | symbol _ ih => exact .symbol (ih second)
  | line bytes _ ih => exact .line bytes (ih second)
  | dump bytes _ ih => exact .dump bytes (ih second)
  | padding begun inside zeros _ ih => exact .padding begun inside zeros (ih second)

/-- The bytes at a position end inside the area. -/
theorem end_le_length {data : List Byte} (bytes : data <+: code.drop position) (inside : position ≤ code.length) :
    position + data.length ≤ code.length := by
  have length := bytes.length_le
  rw [List.length_drop] at length
  omega

theorem addressOf_inj {first second : ℕ} (small : first < 2 ^ 64) (small' : second < 2 ^ 64)
    (same : addressOf org first = addressOf org second) : first = second := by
  have values := congrArg BitVec.toNat ((BitVec.add_left_inj ..).mp same)
  rwa [BitVec.toNat_ofNat, BitVec.toNat_ofNat, Nat.mod_eq_of_lt small, Nat.mod_eq_of_lt small'] at values

/-- How far blocks get is determined by them. -/
theorem Shows.last_unique (fits : code.length < 2 ^ 64) {last' : ℕ} (shows : Shows org code position blocks last)
    (shows' : Shows org code position blocks last') (inside : position ≤ code.length) : last = last' := by
  induction shows with
  | done =>
    cases shows'
    rfl
  | symbol _ ih =>
    cases shows' with
    | symbol later => exact ih later inside
  | line bytes _ ih =>
    cases shows' with
    | line bytes' later => exact ih later (end_le_length bytes inside)
  | dump bytes _ ih =>
    cases shows' with
    | dump bytes' later => exact ih later (end_le_length bytes inside)
  | @padding position last blocks first appearances begun covered zeros _ ih =>
    generalize shape : Block.padding appearances (addressOf org first) :: blocks = all at shows'
    cases shows' with
    | @padding _ _ _ first' _ begun' covered' zeros' later =>
      obtain ⟨notice, rfl⟩ := List.cons.inj shape
      obtain ⟨rfl, address⟩ := Block.padding.inj notice
      obtain rfl := addressOf_inj (by omega) (by omega) address
      have within := end_le_length zeros (by omega)
      rw [List.length_replicate] at within
      exact ih later within
    | done => cases shape
    | symbol _ => cases shape
    | line _ _ => cases shape
    | dump _ _ => cases shape

end Showing

/-! ## A turn of the loop -/

/-- What holds between the turns: the blocks show everything up to the data that is not written yet and the NOPs
without lines, and both are known with their place. -/
structure Disassembly.Covers (state : Disassembly) (org : Word) (code : List Byte) (position : ℕ) : Prop where
  shown : Shows org code 0 state.ret (position - state.bad_8bit_data.flatten.length - (state.concussive_nop_appearances - 3))
  solid : ∀ binary ∈ state.bad_8bit_data, binary ≠ []
  held : state.bad_8bit_data.flatten.length ≤ position
  data : state.bad_8bit_data.flatten <+: code.drop (position - state.bad_8bit_data.flatten.length)
  dataOffset : state.bad_8bit_data ≠ [] →
    state.bad_8bit_data_offset = addressOf org (position - state.bad_8bit_data.flatten.length)
  alone : state.bad_8bit_data ≠ [] → state.concussive_nop_appearances = 0
  counted : state.concussive_nop_appearances ≤ position
  zeros : List.replicate state.concussive_nop_appearances 0x00 <+: code.drop (position - state.concussive_nop_appearances)
  nopOffset : state.concussive_nop_appearances ≠ 0 →
    state.concussive_nop_appearances_offset = addressOf org (position - state.concussive_nop_appearances)

section Turns

variable {area : Area} {code binary : List Byte} {state : Disassembly} {position : ℕ} {literals : List (List Char)}

theorem isLabelChar_of_hexadecimal {c : Char} (digit : Numerals.isHexadecimal c = true) : isLabelChar c = true := by
  simp only [Numerals.isHexadecimal, Bool.or_eq_true, decide_eq_true_eq] at digit
  simp only [isLabelChar, isLabelStart, Bool.or_eq_true, decide_eq_true_eq]
  rcases digit with (decimal | small) | capital
  · exact .inr decimal
  · exact .inl (.inl (.inl (.inr ⟨small.1, Char.le_trans small.2 (by decide)⟩)))
  · exact .inl (.inl (.inl (.inl ⟨capital.1, Char.le_trans capital.2 (by decide)⟩)))

/-- The address of a symbol is a word, and what is put for it begins with the word itself. -/
theorem insertSymbol_ok (reading : TargetReading) (literal name : List Char) (address : ℕ) :
    ∃ inserted, replaceWholeWord reading literal ("0x".toList ++ Numerals.hexadecimal address)
      ("0x".toList ++ Numerals.hexadecimal address ++ " /* ".toList ++ name ++ " */".toList) = .ok inserted := by
  have all : ∀ c ∈ "0x".toList ++ Numerals.hexadecimal address, isLabelChar c = true :=
    List.forall_mem_append.mpr ⟨by decide, fun c member =>
      isLabelChar_of_hexadecimal (Numerals.isHexadecimal_of_mem_hexadecimal member)⟩
  refine ⟨_, replaceWholeWord_eq all (List.cons_ne_nil _ _) fun _ => ?_⟩
  rintro (around | around) <;> exact absurd (Option.some.inj around) (by decide)

/-- Symbols can always be inserted. -/
theorem insertSymbols_ok (area : Area) (literal : List Char) : ∃ inserted, area.insertSymbols literal = .ok inserted := by
  rw [Area.insertSymbols]
  split_ifs with verbose
  · induction area.symbol_table.entries generalizing literal with
    | nil => exact ⟨literal, rfl⟩
    | cons symbol symbols ih =>
      obtain ⟨inserted, replaced⟩ := insertSymbol_ok area.reading literal symbol.2 symbol.1
      rw [List.foldlM_cons]
      dsimp only
      rw [replaced, except_ok_bind]
      exact ih inserted
  · exact ⟨literal, rfl⟩

/-- Bytes follow bytes. -/
theorem prefix_drop_append {first second : List Byte} (here : first <+: code.drop position)
    (there : second <+: code.drop (position + first.length)) : first ++ second <+: code.drop position := by
  obtain ⟨rest, whole⟩ := here
  have rest_eq : code.drop (position + first.length) = rest := by
    rw [← List.drop_drop, ← whole, List.drop_left]
  rw [rest_eq] at there
  rw [← whole]
  exact List.prefix_append_right_inj .. |>.mpr there

theorem shows_symbolAt (area : Area) (address : Word) (position : ℕ) :
    Shows area.org code position (area.symbolAt address) position := by
  rw [Area.symbolAt]
  cases area.symbol_table.find? address.toNat with
  | none => exact .done
  | some name => exact .symbol .done

/-- After the notice of a run of NOPs nothing of it is missing. -/
theorem Disassembly.Covers.clear (covers : state.Covers area.org code position) :
    state.clearNops.Covers area.org code position where
  shown := by
    refine covers.shown.append ?_
    split_ifs with long
    · have empty : state.bad_8bit_data = [] := by
        by_contra held
        have idle := covers.alone held
        omega
      have offset := covers.nopOffset (by omega)
      have counted := covers.counted
      rw [offset, empty, List.flatten_nil, List.length_nil]
      refine .padding (by omega) (by omega) covers.zeros ?_
      rw [Nat.sub_add_cancel counted, show state.clearNops.bad_8bit_data = [] from empty]
      exact .done
    · rw [Nat.sub_eq_zero_of_le (by omega : state.concussive_nop_appearances ≤ 3)]
      exact .done
  solid := covers.solid
  held := covers.held
  data := covers.data
  dataOffset := covers.dataOffset
  alone := fun _ => rfl
  counted := Nat.zero_le _
  zeros := List.nil_prefix
  nopOffset := fun nonempty => absurd rfl nonempty

/-- Data is collected. -/
theorem Disassembly.Covers.record (covers : state.Covers area.org code position)
    (idle : state.concussive_nop_appearances = 0)
    (bytes : binary <+: code.drop position) (nonempty : binary ≠ []) :
    ({ state with
        bad_8bit_data := state.bad_8bit_data ++ [binary]
        bad_8bit_data_offset :=
          if state.bad_8bit_data =
            [] then addressOf area.org position else state.bad_8bit_data_offset } : Disassembly).Covers
      area.org code (position + binary.length) := by
  have held := covers.held
  have length : (state.bad_8bit_data ++ [binary]).flatten.length = state.bad_8bit_data.flatten.length + binary.length := by
    rw [List.flatten_append, List.flatten_singleton, List.length_append]
  have start : position + binary.length - (state.bad_8bit_data ++ [binary]).flatten.length =
      position - state.bad_8bit_data.flatten.length := by
    omega
  constructor
  case shown =>
    dsimp only
    rw [start]
    exact covers.shown
  case solid => exact List.forall_mem_append.mpr ⟨covers.solid, List.forall_mem_singleton.mpr nonempty⟩
  case held => dsimp only; omega
  case data =>
    dsimp only
    rw [start, List.flatten_append, List.flatten_singleton]
    refine prefix_drop_append covers.data ?_
    rwa [Nat.sub_add_cancel held]
  case dataOffset =>
    intro _
    dsimp only
    rw [start]
    split_ifs with empty
    · rw [empty]
      rfl
    · exact covers.dataOffset empty
  case alone => exact fun _ => idle
  case counted => dsimp only; omega
  case zeros =>
    dsimp only
    rw [idle]
    exact List.nil_prefix
  case nopOffset => exact fun counted => absurd idle counted

/-- Data is written in front of an instruction. -/
theorem Disassembly.Covers.flush (covers : state.Covers area.org code position) :
    (area.flushBadData state).Covers area.org code position ∧ (area.flushBadData state).bad_8bit_data = [] := by
  rw [Area.flushBadData]
  split_ifs with empty
  · exact ⟨covers, empty⟩
  · have idle := covers.alone empty
    have shown := covers.shown
    rw [idle] at shown
    have dumped : Shows area.org code (position - state.bad_8bit_data.flatten.length)
        [.dump state.bad_8bit_data_offset state.bad_8bit_data.flatten] position := by
      rw [covers.dataOffset empty]
      refine .dump covers.data ?_
      rw [Nat.sub_add_cancel covers.held]
      exact .done
    refine ⟨?_, rfl⟩
    exact {
      shown := by
        dsimp only
        rw [idle]
        exact (shown.append (shows_symbolAt area _ _)).append dumped
      solid := fun _ member => absurd member List.not_mem_nil
      held := Nat.zero_le _
      data := List.nil_prefix
      dataOffset := fun nonempty => absurd rfl nonempty
      alone := fun _ => idle
      counted := covers.counted
      zeros := covers.zeros
      nopOffset := covers.nopOffset }

/-- A NOP is counted, and has a line if it is one of the first three. -/
theorem Disassembly.Covers.nop (covers : state.Covers area.org code position) (empty : state.bad_8bit_data = [])
    (bytes : [0x00] <+: code.drop position) (literal : List Char) :
    ({ state with
        ret := state.ret ++ area.symbolAt (addressOf area.org position) ++
          if state.concussive_nop_appearances + 1 ≤ 3 then [.line (addressOf area.org position) [0x00] literal] else []
        concussive_nop_appearances_offset :=
          if state.concussive_nop_appearances =
            0 then addressOf area.org position else state.concussive_nop_appearances_offset
        concussive_nop_appearances := state.concussive_nop_appearances + 1 } : Disassembly).Covers
      area.org code (position + 1) := by
  have counted := covers.counted
  have start : position + 1 - (state.concussive_nop_appearances + 1) = position - state.concussive_nop_appearances := by
    omega
  constructor
  case shown =>
    have shown := covers.shown
    dsimp only
    rw [empty] at shown ⊢
    refine (shown.append (shows_symbolAt area _ _)).append ?_
    split_ifs with few
    · rw [Nat.sub_eq_zero_of_le few, Nat.sub_eq_zero_of_le (by omega : state.concussive_nop_appearances ≤ 3)]
      exact .line bytes .done
    · rw [List.flatten_nil, List.length_nil, Nat.sub_zero, Nat.sub_zero,
        show position + 1 - (state.concussive_nop_appearances + 1 - 3) =
          position - (state.concussive_nop_appearances - 3) by omega]
      exact .done
  case solid => exact covers.solid
  case held => exact le_trans covers.held (Nat.le_succ _)
  case data =>
    dsimp only
    rw [empty]
    exact List.nil_prefix
  case dataOffset => exact fun nonempty => absurd empty nonempty
  case alone => exact fun nonempty => absurd empty nonempty
  case counted => exact Nat.succ_le_succ counted
  case zeros =>
    dsimp only
    rw [start, List.replicate_succ']
    refine prefix_drop_append covers.zeros ?_
    rwa [List.length_replicate, Nat.sub_add_cancel counted]
  case nopOffset =>
    intro _
    dsimp only
    rw [start]
    split_ifs with first
    · rw [first, Nat.sub_zero]
    · exact covers.nopOffset first

/-- An instruction has a line. -/
theorem Disassembly.Covers.line (covers : state.Covers area.org code position) (empty : state.bad_8bit_data = [])
    (idle : state.concussive_nop_appearances = 0) (bytes : binary <+: code.drop position) (literal : List Char) :
    ({ state with
        ret := state.ret ++ area.symbolAt (addressOf area.org position) ++
          [.line (addressOf area.org position) binary literal] } : Disassembly).Covers
      area.org code (position + binary.length) := by
  have shown := covers.shown
  rw [empty, idle] at shown
  exact {
    shown := by
      dsimp only
      rw [empty, idle]
      exact (shown.append (shows_symbolAt area _ _)).append (.line bytes .done)
    solid := covers.solid
    held := le_trans covers.held (Nat.le_add_right _ _)
    data := by
      dsimp only
      rw [empty]
      exact List.nil_prefix
    dataOffset := fun nonempty => absurd empty nonempty
    alone := fun nonempty => absurd empty nonempty
    counted := le_trans covers.counted (Nat.le_add_right _ _)
    zeros := by
      dsimp only
      rw [idle]
      exact List.nil_prefix
    nopOffset := fun counted => absurd idle counted }

/-- A turn does not fail, and afterwards data is held exactly when the item was data. -/
theorem turn_covers (covers : state.Covers area.org code position) (bytes : binary <+: code.drop position)
    (nonempty : binary ≠ []) (nop : literals.head? = some "NOP".toList → binary = [0x00]) :
    ∃ next, area.turn (addressOf area.org position) literals binary state = .ok next ∧
      next.Covers area.org code (position + binary.length) ∧ (next.bad_8bit_data ≠ [] ↔ isBadData literals = true) := by
  rw [Area.turn]
  by_cases bad : isBadData literals = true
  · rw [if_pos bad]
    exact ⟨_, rfl, covers.clear.record rfl bytes nonempty,
      iff_of_true (List.append_ne_nil_of_right_ne_nil _ (List.cons_ne_nil _ _)) bad⟩
  · rw [if_neg bad]
    obtain ⟨flushed, empty⟩ := covers.flush
    obtain ⟨literal, inserted⟩ := insertSymbols_ok area (literals.headD [])
    rw [inserted]
    by_cases isNop : literals.head? = some "NOP".toList
    · obtain rfl := nop isNop
      have next := flushed.nop empty bytes literal
      dsimp only
      rw [Area.countNop, if_pos isNop]
      dsimp only
      by_cases few : (area.flushBadData state).concussive_nop_appearances + 1 ≤ 3
      · rw [if_pos few] at next ⊢
        exact ⟨_, rfl, next, iff_of_false (fun nonempty => nonempty empty) bad⟩
      · rw [if_neg few, List.append_nil] at next
        rw [if_neg few]
        exact ⟨_, rfl, next, iff_of_false (fun nonempty => nonempty empty) bad⟩
    · have next := flushed.clear.line empty rfl bytes literal
      dsimp only
      rw [Area.countNop, if_neg isNop,
        if_pos (show (area.flushBadData state).clearNops.concussive_nop_appearances ≤ 3 from Nat.zero_le 3)]
      exact ⟨_, rfl, next, iff_of_false (fun nonempty => nonempty empty) bad⟩

end Turns

/-! ## The whole area -/

theorem endsBad_cons {byte : Byte} {rest : List Byte} : EndsBad (byte :: rest) ↔
    EndsBad (decodeInstruction (byte :: rest)).2 ∨
      (decodeInstruction (byte :: rest)).2 = [] ∧ isBadData (decodeInstruction (byte :: rest)).1 = true := by
  constructor
  · intro ends
    cases ends with
    | last _ whole bad => exact .inr ⟨whole, bad⟩
    | next _ later => exact .inl later
  · rintro (later | ⟨whole, bad⟩)
    · exact .next (List.cons_ne_nil _ _) later
    · exact .last (List.cons_ne_nil _ _) whole bad

theorem endsBad_nil {held : Prop} : held ↔ EndsBad [] ∨ ([] : List Byte) = [] ∧ held := by
  constructor
  · exact fun known => .inr ⟨rfl, known⟩
  · rintro (bad | ⟨-, known⟩)
    · cases bad with
      | last nonempty => exact absurd rfl nonempty
      | next nonempty => exact absurd rfl nonempty
    · exact known

/-- The loop takes all bytes, each turn at least one. -/
theorem loop_covers (area : Area) (code : List Byte) {fuel : ℕ} {rest : List Byte} {state : Disassembly}
    (suffix : rest <:+ code)
    (enough : rest.length ≤ fuel) (covers : state.Covers area.org code (code.length - rest.length)) :
    ∃ final, area.loop code fuel rest state = pure final ∧ final.Covers area.org code code.length ∧
      (final.bad_8bit_data ≠ [] ↔ EndsBad rest ∨ rest = [] ∧ state.bad_8bit_data ≠ []) := by
  induction fuel generalizing rest state with
  | zero =>
    obtain rfl := List.eq_nil_of_length_eq_zero (Nat.le_zero.mp enough)
    exact ⟨state, rfl, covers, endsBad_nil⟩
  | succ fuel ih =>
    cases rest with
    | nil => exact ⟨state, rfl, covers, endsBad_nil⟩
    | cons byte rest =>
      have left := decodeInstruction_suffix byte rest
      obtain ⟨binary, whole⟩ := left.trans (List.suffix_cons byte rest)
      have shorter := left.length_le
      have inside := suffix.length_le
      have lengths := congrArg List.length whole
      rw [List.length_append] at lengths
      simp only [List.length_cons] at enough inside lengths
      have place := List.suffix_iff_eq_drop.mp suffix
      have size : code.length - (decodeInstruction (byte :: rest)).2.length - (code.length - (byte :: rest).length) =
          binary.length := by
        rw [List.length_cons]
        omega
      have bytes : binary <+: code.drop (code.length - (byte :: rest).length) := by
        rw [← place, ← whole]
        exact List.prefix_append _ _
      have taken : (code.drop (code.length - (byte :: rest).length)).take binary.length = binary :=
        List.prefix_iff_eq_take.mp bytes |>.symm
      have nonempty : binary ≠ [] := by
        rintro rfl
        simp only [List.length_nil] at lengths
        omega
      have nop : (decodeInstruction (byte :: rest)).1.head? = some "NOP".toList → binary = [0x00] := by
        intro nop
        obtain ⟨rfl, same⟩ := decodeInstruction_nop nop
        rw [same] at whole
        exact List.append_cancel_right whole
      obtain ⟨next, turned, nextCovers, nextHeld⟩ := turn_covers covers bytes nonempty nop
      have moved : code.length - (byte :: rest).length + binary.length =
          code.length - (decodeInstruction (byte :: rest)).2.length := by
        rw [List.length_cons]
        omega
      rw [moved] at nextCovers
      obtain ⟨final, ran, finalCovers, finalHeld⟩ :=
        ih ((left.trans (List.suffix_cons byte rest)).trans suffix) (by omega) nextCovers
      refine ⟨final, ?_, finalCovers, ?_⟩
      · rw [Area.loop]
        dsimp only
        rw [size, taken]
        change (Nested.ofExcept (area.turn (addressOf area.org _) _ binary state) >>= fun state =>
          area.loop code fuel _ state) = _
        rw [turned]
        exact ran
      · rw [finalHeld, nextHeld, endsBad_cons]
        simp only [reduceCtorEq, false_and, or_false]

/-- The disassembler ends, and it shows everything unless the area ends with bytes that are no instruction. -/
theorem disassembly_shows_iff (area : Area) (code : List Byte) (fits : code.length < 2 ^ 64) :
    (∀ input, input ≠ [] → (decodeInstruction input).2.length < input.length) ∧
      ∃ blocks, area.disassembleBlocks code = pure blocks ∧ area.disassembleCode code = pure (blocks.flatMap Block.text) ∧
        (Shows area.org code 0 blocks code.length ↔ ¬ EndsBad code) := by
  constructor
  · intro input nonempty
    obtain ⟨byte, rest, rfl⟩ := List.exists_cons_of_ne_nil nonempty
    exact Nat.lt_succ_of_le (decodeInstruction_suffix byte rest).length_le
  · have start : Disassembly.start.Covers area.org code (code.length - code.length) := by
      rw [Nat.sub_self]
      exact {
        shown := .done
        solid := fun _ member => absurd member List.not_mem_nil
        held := le_refl _
        data := List.nil_prefix
        dataOffset := fun nonempty => absurd rfl nonempty
        alone := fun _ => rfl
        counted := le_refl _
        zeros := List.nil_prefix
        nopOffset := fun nonempty => absurd rfl nonempty }
    obtain ⟨final, ran, covers, held⟩ := loop_covers area code (List.suffix_refl code) (le_refl _) start
    have blocks : area.disassembleBlocks code = pure final.clearNops.ret := by
      rw [Area.disassembleBlocks, ran]
      rfl
    refine ⟨final.clearNops.ret, blocks, ?_, ?_⟩
    · rw [Area.disassembleCode, blocks]
      rfl
    · have bad : final.bad_8bit_data ≠ [] ↔ EndsBad code :=
        held.trans (or_iff_left fun ⟨_, nonempty⟩ => nonempty rfl)
      have shown := covers.clear.shown
      have places : final.clearNops.bad_8bit_data = final.bad_8bit_data := rfl
      rw [← bad, not_not]
      constructor
      · intro whole
        by_contra nonempty
        have unique := shown.last_unique fits whole (Nat.zero_le _)
        have positive : 0 < final.bad_8bit_data.flatten.length := by
          obtain ⟨binary, more, pieces⟩ := List.exists_cons_of_ne_nil nonempty
          have solid := covers.solid binary (by rw [pieces]; exact List.mem_cons_self)
          rw [pieces, List.flatten_cons, List.length_append]
          exact Nat.add_pos_left (List.length_pos_of_ne_nil solid) _
        have known := covers.held
        rw [places] at unique
        omega
      · intro empty
        rw [places, empty] at shown
        exact shown

/-- A byte that is no opcode, and a halt. -/
theorem disassembly_shows_halt : ∃ blocks,
    (Area.mk (fun _ => none) false 0 .empty).disassembleBlocks [0xFF, 0x40] = pure blocks ∧
    Shows 0 [0xFF, 0x40] 0 blocks 2 := by
  obtain ⟨-, blocks, printed, -, shows⟩ :=
    disassembly_shows_iff (Area.mk (fun _ => none) false 0 .empty) [0xFF, 0x40] (by decide)
  refine ⟨blocks, printed, shows.mpr fun bad => ?_⟩
  rw [endsBad_cons, show (decodeInstruction [0xFF, 0x40]).2 = [0x40] from rfl] at bad
  rcases bad with bad | ⟨whole, -⟩
  · rw [endsBad_cons, show (decodeInstruction [0x40]).2 = [] from rfl, show isBadData (decodeInstruction [0x40]).1 =
      false from rfl] at bad
    rcases bad with bad | ⟨-, bad⟩
    · cases bad with
      | last nonempty => exact absurd rfl nonempty
      | next nonempty => exact absurd rfl nonempty
    · exact absurd bad Bool.false_ne_true
  · exact absurd whole (List.cons_ne_nil _ _)

/-- A byte at the end that is no opcode is not shown. -/
theorem not_shows_trailing : ¬ ∀ (area : Area) (code : List Byte), ∃ blocks, area.disassembleBlocks code = pure blocks ∧
    Shows area.org code 0 blocks code.length := by
  intro every
  obtain ⟨blocks, printed, shows⟩ := every (Area.mk (fun _ => none) false 0 .empty) [0xFF]
  have empty : (Area.mk (fun _ => none) false 0 .empty).disassembleBlocks [0xFF] = pure [] := rfl
  have same : some (Except.ok []) = some (Except.ok blocks) := empty.symm.trans printed
  obtain rfl := Except.ok.inj (Option.some.inj same)
  cases shows

end Sysdarft.Coding
