import Sysdarft.Proofs.Relocation

/-! # Instruction lines

A line that is neither blank nor a label nor a directive makes one chunk: its encoding, or with a label in it the
encoding of the line with the placeholder for the operand. The lines behind it leave the chunk and what is recorded about
it alone, so the linker turns it into the instruction with the address of the label.
-/

namespace Sysdarft.Coding

open Regex Format

/-! ## Records -/

/-- A chunk is recorded with a name. -/
def Recorded (markers : List LineMarker) (name : List Char) (chunk : ℕ) : Prop :=
  ∃ marker ∈ markers, marker.line_marker_name = name ∧ chunk ∈ marker.loc_it_appeared_in_cur_blk

section Records

variable {name other : List Char} {offset chunk : ℕ} {marker : LineMarker} {markers markers' : List LineMarker}

theorem recorded_cons : Recorded (marker :: markers) name chunk ↔
    marker.line_marker_name = name ∧ chunk ∈ marker.loc_it_appeared_in_cur_blk ∨ Recorded markers name chunk :=
  List.exists_mem_cons_iff ..

theorem not_recorded_nil : ¬ Recorded [] name chunk := by
  rintro ⟨marker, member, -⟩
  exact List.not_mem_nil member

theorem mem_symbolChunks : chunk ∈ symbolChunks markers ↔ ∃ name, Recorded markers name chunk := by
  rw [symbolChunks, List.mem_flatMap]
  constructor
  · rintro ⟨marker, member, inside⟩
    exact ⟨_, marker, member, rfl, inside⟩
  · rintro ⟨_, marker, member, -, inside⟩
    exact ⟨marker, member, inside⟩

theorem recorded_emplaceMarker (emplaced : emplaceMarker name offset markers = .ok markers') :
    Recorded markers' other chunk ↔ Recorded markers other chunk := by
  induction markers generalizing markers' with
  | nil =>
    obtain rfl := Except.ok.inj emplaced
    rw [recorded_cons, or_iff_right fun entry => List.not_mem_nil entry.2]
  | cons marker markers ih =>
    rw [emplaceMarker] at emplaced
    split_ifs at emplaced with same defined
    · obtain rfl := Except.ok.inj emplaced
      rw [recorded_cons, recorded_cons]
    · obtain ⟨later, behind, rfl⟩ := Effects.except_map_eq_ok.mp emplaced
      rw [recorded_cons, recorded_cons, ih behind]

theorem recorded_addMarkerReference :
    Recorded (addMarkerReference name offset markers) other chunk ↔ Recorded markers other chunk ∨ other = name ∧
      chunk = offset := by
  induction markers with
  | nil =>
    rw [addMarkerReference, recorded_cons, or_iff_left not_recorded_nil, or_iff_right not_recorded_nil, List.mem_singleton]
    exact and_congr_left fun _ => eq_comm
  | cons marker markers ih =>
    rw [addMarkerReference]
    split_ifs with same
    · rw [recorded_cons, recorded_cons, List.mem_append, List.mem_singleton]
      subst same
      constructor
      · rintro (⟨named, early | last⟩ | later)
        · exact .inl (.inl ⟨named, early⟩)
        · exact .inr ⟨named.symm, last⟩
        · exact .inl (.inr later)
      · rintro ((⟨named, early⟩ | later) | ⟨named, last⟩)
        · exact .inl ⟨named, .inl early⟩
        · exact .inr later
        · exact .inl ⟨named.symm, .inr last⟩
    · rw [recorded_cons, recorded_cons, ih, or_assoc]

/-- A chunk has one name. -/
theorem Recorded.unique (once : (symbolChunks markers).Nodup) (first : Recorded markers name chunk)
    (second : Recorded markers other chunk) :
    name = other := by
  induction markers with
  | nil => exact absurd first not_recorded_nil
  | cons marker markers ih =>
    obtain ⟨-, later, apart⟩ := List.nodup_append.mp once
    have behind {name : List Char} (recorded : Recorded markers name chunk)
      (here : chunk ∈ marker.loc_it_appeared_in_cur_blk) : False :=
      apart _ here _ (mem_symbolChunks.mpr ⟨name, recorded⟩) rfl
    rcases recorded_cons.mp first with ⟨rfl, here⟩ | first
    · rcases recorded_cons.mp second with ⟨rfl, -⟩ | second
      · rfl
      · exact absurd here (behind second)
    · rcases recorded_cons.mp second with ⟨rfl, here⟩ | second
      · exact absurd here (behind first)
      · exact ih later first second

end Records

/-! ## The line -/

/-- What is left of a line when `@@`, `@` and quoted characters are replaced. -/
def lineText (origin here : ℕ) (line : List Char) : Except BuildError (List Char) :=
  processAsciiValue (replaceAll (replaceAll line "@@".toList (Numerals.decimal origin)) "@".toList (Numerals.decimal here))

/-- The line is none of the others, and this is its text. -/
structure IsInstructionLine (bc : Calculator) (origin here : ℕ) (line text : List Char) : Prop where
  visible : isLineEmpty line = false
  unlabelled : fullMatch lineMarkPattern line = none
  unquoted : processString line = .ok none
  unreserved : processResvb bc
    (replaceAll (replaceAll line "@@".toList (Numerals.decimal origin)) "@".toList (Numerals.decimal here)) = .ok none
  reads : lineText origin here line = .ok text
  undated : processData text = none

/-- The label in a line. -/
def labelIn (markers : List LineMarker) (text : List Char) : Option (List Char) := (markerInLine markers text).map Prod.fst

/-- The line with the placeholder for the label. -/
def placeholderLine (markers : List LineMarker) (text : List Char) : List Char :=
  match markerInLine markers text with
  | some (_, operand) => replaceAll text operand placeholder
  | none => text

section Lines

variable {bc : Calculator} {origin : ℕ} {markers : List LineMarker} {line text : List Char} {lines rest : List (List Char)}
  {assembly assembly' : Assembly} {object earlier : ObjectFile} {position behind : ℕ}

/-- What an instruction line does. -/
structure Emits (bc : Calculator) (text : List Char) (assembly assembly' : Assembly) (code : List Byte) : Prop where
  encoded : encodeInstruction bc (placeholderLine assembly.appeared_line_markers text) = .ok code
  buffer : assembly'.instruction_buffer_set = assembly.instruction_buffer_set ++ [code]
  data : assembly'.data_processors = assembly.data_processors
  records : ∀ name chunk, Recorded assembly'.appeared_line_markers name chunk ↔
    Recorded assembly.appeared_line_markers name chunk ∨
    labelIn assembly.appeared_line_markers text = some name ∧ chunk = assembly.nextChunk

theorem assembleLine_instruction {number : ℕ}
    (here : IsInstructionLine bc origin ((codeSizeNow assembly.instruction_buffer_set + origin) % 2 ^ 64) line text)
    (turn : assembleLine bc origin assembly (number, line) = .ok assembly') :
    ∃ code, Emits bc text assembly assembly' code := by
  rw [assembleLine, here.visible, if_neg Bool.false_ne_true, here.unlabelled] at turn
  have done := Effects.except_mapError_eq_ok.mp turn
  rw [assembleCode, here.unquoted, Effects.except_ok_bind] at done
  dsimp only at done
  rw [here.unreserved, Effects.except_ok_bind] at done
  dsimp only at done
  have reads := here.reads
  rw [lineText] at reads
  rw [reads, Effects.except_ok_bind] at done
  rw [here.undated] at done
  dsimp only at done
  cases named : markerInLine assembly.appeared_line_markers text with
  | some operand =>
    rw [named] at done
    obtain ⟨code, encoded, done⟩ := Effects.except_bind_eq_ok.mp done
    obtain rfl := Except.ok.inj done
    refine ⟨code, ?_, rfl, rfl, fun name chunk => ?_⟩
    · rw [placeholderLine, named]
      exact Effects.except_mapError_eq_ok.mp encoded
    · refine recorded_addMarkerReference.trans (or_congr_right (and_congr_left fun _ => ?_))
      rw [labelIn, named, Option.map_some, Option.some.injEq]
      exact eq_comm
  | none =>
    rw [named] at done
    obtain ⟨code, encoded, done⟩ := Effects.except_bind_eq_ok.mp done
    obtain rfl := Except.ok.inj done
    refine ⟨code, ?_, rfl, rfl, fun name chunk => ?_⟩
    · rw [placeholderLine, named]
      exact Effects.except_mapError_eq_ok.mp encoded
    · rw [labelIn, named]
      exact (or_iff_left fun both => by cases both.1).symm

/-- What is recorded about an earlier chunk stays. -/
structure Settled (assembly assembly' : Assembly) (chunk : ℕ) : Prop where
  records : ∀ name, Recorded assembly'.appeared_line_markers name chunk ↔ Recorded assembly.appeared_line_markers name chunk
  data : chunk ∈ assembly'.data_processors.map DataExpression.data_appearance ↔
    chunk ∈ assembly.data_processors.map DataExpression.data_appearance
  later : assembly.nextChunk ≤ assembly'.nextChunk

theorem Turn.settled {chunk : ℕ} (turn : Turn assembly assembly') (before : chunk < assembly.nextChunk) :
    Settled assembly assembly' chunk := by
  obtain ⟨chunks, longer⟩ := turn.chunks
  have later : assembly.nextChunk ≤ assembly'.nextChunk := by
    rw [Assembly.nextChunk, Assembly.nextChunk, longer, List.length_append]
    omega
  cases turn with
  | blank => exact ⟨fun name => Iff.rfl, Iff.rfl, later⟩
  | label label emplaced => exact ⟨fun name => recorded_emplaceMarker emplaced, Iff.rfl, later⟩
  | plain code => exact ⟨fun name => Iff.rfl, Iff.rfl, later⟩
  | data width data_string =>
    refine ⟨fun name => Iff.rfl, ?_, later⟩
    change chunk ∈
      (assembly.data_processors ++ [(⟨assembly.nextChunk, width.bytes, data_string⟩ : DataExpression)]).map _ ↔ _
    rw [List.map_append, List.mem_append]
    exact or_iff_left fun last => before.ne (List.mem_singleton.mp last)
  | reference name code =>
    refine ⟨fun other => ?_, Iff.rfl, later⟩
    exact recorded_addMarkerReference.trans (or_iff_left fun both => before.ne both.2)

theorem assembleLine_settled {entries : List (ℕ × List Char)} {chunk : ℕ} (before : chunk < assembly.nextChunk)
    (run : entries.foldlM (assembleLine bc origin) assembly = .ok assembly') : Settled assembly assembly' chunk := by
  refine Effects.except_foldlM_rule (P := fun now => Settled assembly now chunk) (fun done entry rest now kept turn => ?_)
    ⟨fun name => Iff.rfl, Iff.rfl, le_rfl⟩ run
  have next := (turn_of_assembleLine turn).settled (before.trans_le kept.later)
  exact ⟨fun name => (next.records name).trans (kept.records name), next.data.trans kept.data, kept.later.trans next.later⟩

theorem numbered_append (first second : List (List Char)) :
    ∃ entries, numbered (first ++ second) = numbered first ++ entries := by
  refine ⟨(List.range' (1 + first.length) second.length).zip second, ?_⟩
  rw [numbered, List.length_append, ← List.range'_append_1, List.zip_append List.length_range', ← numbered]

theorem assembleLines_linkable (undefined : Undefined markers) (run : assembleLines bc origin markers lines = .ok assembly) :
    assembly.Linkable :=
  Effects.except_foldlM_rule (fun _ _ _ _ linkable turn => (turn_of_assembleLine turn).linkable linkable)
    ⟨undefined.linkable, List.cons_ne_nil _ _⟩ run

/-- The chunk of an instruction line in its object. -/
structure InstructionChunk (bc : Calculator) (object earlier : ObjectFile) (text : List Char) (code : List Byte) : Prop where
  chunk : ∃ back, object.code = earlier.code ++ code :: back
  encoded : encodeInstruction bc (placeholderLine earlier.symbol_table text) = .ok code
  records : ∀ name, Recorded object.symbol_table name earlier.code.length ↔ labelIn earlier.symbol_table text = some name
  data : earlier.code.length ∉ object.data_expression_identifiers.map DataExpression.data_appearance

theorem sysdarftAssemble_instruction (undefined : Undefined markers)
    (done : sysdarftAssemble bc (lines ++ line :: rest) origin markers = .ok (object, behind))
    (before : sysdarftAssemble bc lines origin markers = .ok (earlier, position))
    (here : IsInstructionLine bc origin position line text) :
    ∃ code, InstructionChunk bc object earlier text code ∧
      ∃ later, sysdarftAssemble bc (lines ++ [line]) origin markers = .ok (later, (position + code.length) % 2 ^ 64) ∧
        later.code = earlier.code ++ [code] := by
  have shape := done
  rw [List.append_cons] at shape
  obtain ⟨longer, _, found, back, behind_⟩ := sysdarftAssemble_front shape
  obtain ⟨assembly, run, rfl, rfl⟩ := sysdarftAssemble_eq_ok.mp before
  obtain ⟨last, whole, rfl, -⟩ := sysdarftAssemble_eq_ok.mp done
  obtain ⟨entries, split⟩ := numbered_append (lines ++ [line]) rest
  rw [← List.append_cons] at split
  rw [assembleLines, split, List.foldlM_append] at whole
  obtain ⟨middle, first, others⟩ := Effects.except_bind_eq_ok.mp whole
  obtain ⟨assembly_, again, turn⟩ := assembleLines_concat.mp first
  obtain rfl := Except.ok.inj (run.symm.trans again)
  have linkable := assembleLines_linkable undefined run
  have front := assembleLines_front run
  have address : (origin + codeSizeNow (assembly.instruction_buffer_set.drop 1)) % 2 ^ 64 =
      (codeSizeNow assembly.instruction_buffer_set + origin) % 2 ^ 64 := by rw [codeSizeNow_drop run, Nat.add_comm]
  dsimp only at here
  rw [address] at here
  obtain ⟨code, emits⟩ := assembleLine_instruction here turn
  have count : (assembly.instruction_buffer_set.drop 1).length = assembly.nextChunk := List.length_drop
  have next : assembly.nextChunk < middle.nextChunk := by
    rw [Assembly.nextChunk, Assembly.nextChunk, emits.buffer, List.length_append, front]
    simp
  have settled := assembleLine_settled next others
  have chunks : middle.instruction_buffer_set.drop 1 = assembly.instruction_buffer_set.drop 1 ++ [code] := by
    rw [emits.buffer, front]
    rfl
  obtain ⟨middle_, same, rfl, -⟩ := sysdarftAssemble_eq_ok.mp found
  obtain rfl := Except.ok.inj (first.symm.trans same)
  refine ⟨code, ⟨⟨back, ?_⟩, emits.encoded, fun name => ?_, ?_⟩, _, sysdarftAssemble_eq_ok.mpr ⟨middle, first, rfl, ?_⟩,
    chunks⟩
  · rw [← behind_, chunks, List.append_assoc, List.singleton_append]
  · dsimp only
    rw [count, settled.records, emits.records, and_iff_left rfl]
    refine or_iff_right fun recorded => ?_
    exact absurd (linkable.1.inside _ (List.mem_append_left _ (mem_symbolChunks.mpr ⟨name, recorded⟩))) (lt_irrefl _)
  · dsimp only
    rw [count, settled.data, emits.data]
    exact fun member => absurd (linkable.1.inside _ (List.mem_append_right _ member)) (lt_irrefl _)
  · dsimp only
    rw [chunks, codeSizeNow, codeSizeNow, List.map_append, List.sum_append, List.map_singleton, List.sum_singleton,
      Nat.add_mod_mod,
      Nat.add_mod_mod, Nat.mod_add_mod, Nat.add_assoc]

end Lines

/-! ## The linked chunk -/

/-- The instruction with the address of its label. -/
def resolve (table : SymbolTable) (label : Option (List Char)) (instruction : Instruction) : Instruction :=
  match label with
  | some name => relocate (symbolAddress table name) instruction
  | none => instruction

section Linking

variable {bc : Calculator} {table : SymbolTable} {object earlier : ObjectFile} {text : List Char} {code linked : List Byte}

/-- Only the label decides about the chunk. -/
theorem InstructionChunk.resolved {instruction : Instruction}
    (placed : InstructionChunk bc object earlier text instruction.bytes)
    (here : LinkedChunk bc table object earlier.code.length instruction.bytes linked) :
    (∀ name, labelIn earlier.symbol_table text = some name → isDefined table name = true) ∧
      linked = (resolve table (labelIn earlier.symbol_table text) instruction).bytes := by
  have records := placed.records
  generalize labelIn earlier.symbol_table text = label at records ⊢
  cases here with
  | plain unused undated =>
    have unlabelled : label = none := by
      rw [Option.eq_none_iff_forall_not_mem]
      exact fun name named => unused (mem_symbolChunks.mpr ⟨name, (records name).mpr named⟩)
    subst unlabelled
    exact ⟨fun name named => absurd named (by simp), rfl⟩
  | @reference symbol chunk known recorded defined once =>
    obtain rfl := (records symbol.line_marker_name).mp ⟨symbol, known, rfl, recorded⟩
    exact ⟨fun name named => Option.some.inj named ▸ defined, replaceSequence_bytes once⟩
  | @data data expression processed chunk known recorded => exact absurd (recorded ▸ List.mem_map_of_mem known) placed.data

end Linking

/-! ## Whole builds -/

/-- A line in one of the files: what is assembled before it, and the address it begins at. -/
structure LineAt (bc : Calculator) (org : ℕ) (files : List FileAttr) (line : List Char) (earlier : ObjectFile)
    (chunks : List (List Byte)) (origin position : ℕ) : Prop where
  file : ∃ before file after lines rest objects, files = before ++ file :: after ∧ file.file = lines ++ line :: rest ∧
    assembleFiles bc org before = .ok (objects, origin) ∧
    sysdarftAssemble bc lines origin file.symbol_table = .ok (earlier, position) ∧
    chunks = objects.flatMap ObjectFile.code ++ earlier.code

section Files

variable {bc : Calculator} {org origin position behind : ℕ} {verbose : Bool} {before files rest : List FileAttr}
    {objects : List ObjectFile}
  {earlier linked : ObjectFile} {chunks : List (List Byte)} {line text : List Char} {table : SymbolTable}

theorem assembleFiles_append : assembleFiles bc org (before ++ rest) = .ok (objects, behind) ↔ ∃ first middle later,
    assembleFiles bc org before = .ok (first, middle) ∧
    assembleFiles bc middle rest = .ok (later, behind) ∧ objects = first ++ later := by
  induction before generalizing org objects with
  | nil =>
    constructor
    · exact fun done => ⟨[], org, objects, rfl, done, rfl⟩
    · rintro ⟨first, middle, later, done, last, rfl⟩
      obtain ⟨rfl, rfl⟩ := Prod.mk.inj (Except.ok.inj done)
      exact last
  | cons file before ih =>
    rw [List.cons_append, assembleFiles_cons]
    constructor
    · rintro ⟨object, position, objects, here, done, rfl⟩
      obtain ⟨first, middle, later, early, last, rfl⟩ := ih.mp done
      exact ⟨object :: first, middle, later, assembleFiles_cons.mpr ⟨object, position, first, here, early, rfl⟩, last, rfl⟩
    · rintro ⟨first, middle, later, early, last, rfl⟩
      obtain ⟨object, position, first, here, front, rfl⟩ := assembleFiles_cons.mp early
      exact ⟨object, position, first ++ later, here, ih.mpr ⟨first, middle, later, front, last, rfl⟩, rfl⟩

/-- The origin behind some files and the first lines of another. -/
theorem assembleFiles_partly {file : FileAttr} {lines : List (List Char)} {first : List ObjectFile}
    (early : assembleFiles bc org before = .ok (first, origin))
    (partly : sysdarftAssemble bc lines origin file.symbol_table = .ok (earlier, position)) :
    position = (org + codeSize (first.flatMap ObjectFile.code ++ earlier.code)) % 2 ^ 64 := by
  have whole : assembleFiles bc org (before ++ [{ file with file := lines }]) = .ok (first ++ [earlier], position) :=
    assembleFiles_append.mpr ⟨first, origin, [earlier], early, assembleFiles_single.mpr ⟨earlier, partly, rfl⟩, rfl⟩
  have place : position = (org + codeSize ((first ++ [earlier]).flatMap ObjectFile.code)) % 2 ^ 64 := by
    cases before with
    | nil => exact assembleFiles_position whole
    | cons head before => exact assembleFiles_position whole
  rwa [List.flatMap_append, List.flatMap_singleton] at place

theorem Laid.codeSize_take {code : List (List Byte)} (laid : Laid bc org files objects table code)
    (front : chunks <+: objects.flatMap ObjectFile.code) : codeSize (code.take chunks.length) = codeSize chunks := by
  rw [codeSize, codeSize, List.map_take, laid.sizes, ← List.map_take, ← List.prefix_iff_eq_take.mp front]

/-- The chunk of an instruction line in its object and in the linked file. -/
theorem linked_line (undefined : ∀ file ∈ files, Undefined file.symbol_table)
    (assembled : assembleFiles bc org files = .ok (objects, behind)) (laid : Laid bc org files objects table linked.code)
    (at_ : LineAt bc org files line earlier chunks origin position) (here : IsInstructionLine bc origin position line text) :
    ∃ object code bytes, InstructionChunk bc object earlier text code ∧
      position = (org + codeSize (linked.code.take chunks.length)) % 2 ^ 64 ∧ linked.code[chunks.length]? = some bytes ∧
      LinkedChunk bc table object earlier.code.length code bytes := by
  obtain ⟨before, file, after, lines, rest, first, rfl, split, early, partly, rfl⟩ := at_.file
  obtain ⟨first_, middle, later, early_, done, rfl⟩ := assembleFiles_append.mp assembled
  obtain ⟨rfl, rfl⟩ := Prod.mk.inj (Except.ok.inj (early.symm.trans early_))
  obtain ⟨object, position_, last, whole, -, rfl⟩ := assembleFiles_cons.mp done
  rw [split] at whole
  obtain ⟨code, placed, -⟩ :=
    sysdarftAssemble_instruction (undefined file (List.mem_append_right _ List.mem_cons_self)) whole partly here
  obtain ⟨back, shape⟩ := placed.chunk
  have front : first.flatMap ObjectFile.code ++ earlier.code <+: (first ++ object :: last).flatMap ObjectFile.code := by
    rw [List.flatMap_append, List.flatMap_cons, shape, List.append_assoc]
    exact (List.prefix_append_right_inj _).mpr (List.prefix_append _ _)
  obtain ⟨bytes, found, chunk⟩ := laid.chunks first object last earlier.code code back rfl shape
  refine ⟨object, code, bytes, placed, ?_, ?_, chunk⟩
  · rw [laid.codeSize_take front]
    exact assembleFiles_partly early partly
  · rw [List.length_append]
    exact found

/-- The chunk of an instruction line in the linked file. -/
theorem linked_instruction (undefined : ∀ file ∈ files, Undefined file.symbol_table)
    (assembled : assembleFiles bc org files = .ok (objects, behind)) (laid : Laid bc org files objects table linked.code)
    (at_ : LineAt bc org files line earlier chunks origin position) (here : IsInstructionLine bc origin position line text) :
    ∃ code, encodeInstruction bc (placeholderLine earlier.symbol_table text) = .ok code ∧
      position = (org + codeSize (linked.code.take chunks.length)) % 2 ^ 64 ∧
      ∀ instruction : Instruction, code = instruction.bytes →
        (∀ name, labelIn earlier.symbol_table text = some name → isDefined table name = true) ∧
          linked.code[chunks.length]? = some (resolve table (labelIn earlier.symbol_table text) instruction).bytes := by
  obtain ⟨object, code, bytes, placed, place, found, chunk⟩ := linked_line undefined assembled laid at_ here
  refine ⟨code, placed.encoded, place, ?_⟩
  rintro instruction rfl
  obtain ⟨defined, rfl⟩ := placed.resolved chunk
  exact ⟨defined, found⟩

end Files

end Sysdarft.Coding
