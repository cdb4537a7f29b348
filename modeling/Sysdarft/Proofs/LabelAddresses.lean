import Sysdarft.Coding.MainCompile
import Sysdarft.Proofs.Sections

/-! # Addresses of labels

A label gets the address at which the next byte is emitted. The files are assembled one behind the other, so that
address is the origin that is handed on when only the lines before the label are assembled.
-/

namespace Sysdarft.Coding

open Regex

/-- A line that defines a label. -/
def IsLabelLine (name line : List Char) : Prop :=
    ∃ captures, fullMatch lineMarkPattern line = some captures ∧ captures.get 1 = name

/-- A name is defined with an address. -/
def Defines (markers : List LineMarker) (name : List Char) (position : ℕ) : Prop :=
  ∃ marker ∈ markers, marker.line_marker_name = name ∧ marker.is_defined = true ∧ marker.marker_position = position

section Tables

variable {name other : List Char} {offset position : ℕ} {marker : LineMarker} {markers markers' : List LineMarker}

theorem defines_nil : ¬ Defines [] name position := by
  rintro ⟨marker, member, -⟩
  exact List.not_mem_nil member

theorem defines_cons : Defines (marker :: markers) name position ↔
    marker.line_marker_name = name ∧ marker.is_defined = true ∧ marker.marker_position = position ∨
      Defines markers name position :=
  List.exists_mem_cons_iff ..

/-- A label that is put in is defined, and nothing else changes. -/
theorem defines_emplaceMarker (emplaced : emplaceMarker name offset markers = .ok markers') :
    Defines markers' other position ↔ Defines markers other position ∨ other = name ∧ position = offset := by
  induction markers generalizing markers' with
  | nil =>
    obtain rfl := Except.ok.inj emplaced
    rw [defines_cons, or_iff_left defines_nil, or_iff_right defines_nil]
    exact ⟨fun ⟨same, _, at_⟩ => ⟨same.symm, at_.symm⟩, fun ⟨same, at_⟩ => ⟨same.symm, rfl, at_.symm⟩⟩
  | cons marker markers ih =>
    rw [emplaceMarker] at emplaced
    split_ifs at emplaced with same defined
    · obtain rfl := Except.ok.inj emplaced
      rw [defines_cons, defines_cons]
      constructor
      · rintro (⟨named, -, at_⟩ | later)
        · exact .inr ⟨named.symm.trans same, at_.symm⟩
        · exact .inl (.inr later)
      · rintro ((⟨-, flag, -⟩ | later) | ⟨rfl, rfl⟩)
        · exact absurd flag defined
        · exact .inr later
        · exact .inl ⟨same, rfl, rfl⟩
    · obtain ⟨later, behind, rfl⟩ := Effects.except_map_eq_ok.mp emplaced
      rw [defines_cons, defines_cons, ih behind, or_assoc]

theorem defines_addMarkerReference :
    Defines (addMarkerReference name offset markers) other position ↔ Defines markers other position := by
  induction markers with
  | nil =>
    rw [addMarkerReference, defines_cons]
    exact ⟨fun found => found.elim (fun entry => by cases entry.2.1) id, Or.inr⟩
  | cons marker markers ih =>
    rw [addMarkerReference]
    split_ifs with same
    · rw [defines_cons, defines_cons]
    · rw [defines_cons, defines_cons, ih]

end Tables

/-! ## Runs over the lines of a file -/

/-- The loop over the lines. -/
def assembleLines (bc : Calculator) (origin : ℕ) (markers : List LineMarker) (file : List (List Char)) :
    Except BuildError Assembly :=
  (numbered file).foldlM (assembleLine bc origin) ⟨[[]], [], markers⟩

section Lines

variable {bc : Calculator} {origin position : ℕ} {markers : List LineMarker} {file lines : List (List Char)}
    {line name : List Char}
  {assembly assembly' : Assembly} {object : ObjectFile}

theorem numbered_concat (file : List (List Char)) (line : List Char) :
    numbered (file ++ [line]) = numbered file ++ [(file.length + 1, line)] := by
  rw [numbered, List.length_append, List.length_singleton, List.range'_concat,
    List.zip_append (by rw [List.length_range']), ← numbered]
  rw [List.zip_cons_cons, List.zip_nil_right, Nat.one_mul, Nat.add_comm]

theorem assembleLines_concat :
    assembleLines bc origin markers (file ++ [line]) = .ok assembly' ↔
      ∃ assembly, assembleLines bc origin markers file = .ok assembly ∧
        assembleLine bc origin assembly (file.length + 1, line) = .ok assembly' := by
  rw [assembleLines, numbered_concat, List.foldlM_append, Effects.except_bind_eq_ok]
  refine exists_congr fun assembly => and_congr_right fun _ => ?_
  rw [List.foldlM_cons, Effects.except_bind_eq_ok]
  constructor
  · rintro ⟨middle, done, same⟩
    obtain rfl := Except.ok.inj same
    exact done
  · exact fun done => ⟨assembly', done, rfl⟩

theorem sysdarftAssemble_eq_ok :
    sysdarftAssemble bc file origin markers = .ok (object, position) ↔
      ∃ assembly, assembleLines bc origin markers file = .ok assembly ∧
        object = ⟨assembly.instruction_buffer_set.drop 1, assembly.appeared_line_markers, assembly.data_processors⟩ ∧
        position = (origin + codeSizeNow object.code) % 2 ^ 64 := by
  rw [sysdarftAssemble, Effects.except_bind_eq_ok]
  refine exists_congr fun assembly => and_congr_right fun _ => ?_
  constructor
  · intro same
    obtain ⟨rfl, rfl⟩ := Prod.mk.inj (Except.ok.inj same)
    exact ⟨rfl, rfl⟩
  · rintro ⟨rfl, rfl⟩
    rfl

/-- A label line is not blank. -/
theorem not_isLineEmpty_of_label (labelled : IsLabelLine name line) : isLineEmpty line = false := by
  obtain ⟨captures, marked, -⟩ := labelled
  have label : lineMatches lineMarkPattern line = true := by rw [lineMatches, marked]; rfl
  obtain ⟨c, member⟩ := List.exists_mem_of_ne_nil _ (labelOf_ne_nil label)
  obtain ⟨inside, visible, -⟩ := mem_labelOf.mp member
  rw [← Bool.not_eq_true, isLineEmpty_iff]
  exact fun blank => visible (blank c inside)

/-- Code defines nothing. -/
theorem defines_assembleCode (done : assembleCode bc origin assembly line = .ok assembly') :
    Defines assembly'.appeared_line_markers name position ↔ Defines assembly.appeared_line_markers name position := by
  rw [assembleCode] at done
  obtain ⟨string, -, done⟩ := Effects.except_bind_eq_ok.mp done
  cases string with
  | some bytes =>
    obtain rfl := Except.ok.inj done
    exact Iff.rfl
  | none =>
    obtain ⟨reserved, -, done⟩ := Effects.except_bind_eq_ok.mp done
    cases reserved with
    | some bytes =>
      obtain rfl := Except.ok.inj done
      exact Iff.rfl
    | none =>
      obtain ⟨line, -, done⟩ := Effects.except_bind_eq_ok.mp done
      dsimp only at done
      cases data : processData line with
      | some entry =>
        rw [data] at done
        obtain rfl := Except.ok.inj done
        exact Iff.rfl
      | none =>
        rw [data] at done
        dsimp only at done
        cases named : markerInLine assembly.appeared_line_markers line with
        | some operand =>
          rw [named] at done
          obtain ⟨bytes, -, done⟩ := Effects.except_bind_eq_ok.mp done
          obtain rfl := Except.ok.inj done
          exact defines_addMarkerReference
        | none =>
          rw [named] at done
          obtain ⟨bytes, -, done⟩ := Effects.except_bind_eq_ok.mp done
          obtain rfl := Except.ok.inj done
          exact Iff.rfl

/-- What a line does to the definitions. -/
theorem defines_assembleLine {number : ℕ} (turn : assembleLine bc origin assembly (number, line) = .ok assembly') :
    Defines assembly'.appeared_line_markers name position ↔ Defines assembly.appeared_line_markers name position ∨
      IsLabelLine name line ∧ position = (codeSizeNow assembly.instruction_buffer_set + origin) % 2 ^ 64 := by
  by_cases marked : ∃ captures, fullMatch lineMarkPattern line = some captures
  · obtain ⟨captures, marked⟩ := marked
    rw [assembleLine, not_isLineEmpty_of_label ⟨captures, marked, rfl⟩, if_neg Bool.false_ne_true, marked] at turn
    obtain ⟨markers, emplaced, rfl⟩ := Effects.except_map_eq_ok.mp turn
    rw [defines_emplaceMarker emplaced]
    refine or_congr_right (and_congr_left fun _ => ?_)
    constructor
    · exact fun same => ⟨captures, marked, same.symm⟩
    · rintro ⟨found, again, same⟩
      obtain rfl := Option.some.inj (marked.symm.trans again)
      exact same.symm
  · have plain : ¬ IsLabelLine name line := by
      rintro ⟨captures, found, -⟩
      exact marked ⟨captures, found⟩
    rw [or_iff_left fun labelled => plain labelled.1]
    have unmarked : fullMatch lineMarkPattern line = none := by
      cases found : fullMatch lineMarkPattern line with
      | none => rfl
      | some captures => exact absurd ⟨captures, found⟩ marked
    rw [assembleLine, unmarked] at turn
    split_ifs at turn with blank
    · obtain rfl := Except.ok.inj turn
      exact Iff.rfl
    · exact defines_assembleCode (Effects.except_mapError_eq_ok.mp turn)

/-- The chunks so far stay where they are. -/
theorem Turn.chunks (turn : Turn assembly assembly') :
    ∃ chunks, assembly'.instruction_buffer_set = assembly.instruction_buffer_set ++ chunks := by
  cases turn with
  | blank => exact ⟨[], (List.append_nil _).symm⟩
  | label => exact ⟨[], (List.append_nil _).symm⟩
  | plain code => exact ⟨[code], rfl⟩
  | data width => exact ⟨[List.replicate width.bytes 0], rfl⟩
  | reference name code => exact ⟨[code], rfl⟩

/-- The empty chunk stays in front. -/
theorem assembleLines_front (done : assembleLines bc origin markers file = .ok assembly) :
    assembly.instruction_buffer_set = [] :: assembly.instruction_buffer_set.drop 1 := by
  refine Effects.except_foldlM_rule (P := fun assembly : Assembly =>
    assembly.instruction_buffer_set = [] :: assembly.instruction_buffer_set.drop 1)
      (fun before entry after _ front turn => ?_) rfl done
  obtain ⟨chunks, longer⟩ := (turn_of_assembleLine turn).chunks
  rw [longer, front]
  rfl

theorem codeSizeNow_drop (done : assembleLines bc origin markers file = .ok assembly) :
    codeSizeNow assembly.instruction_buffer_set = codeSizeNow (assembly.instruction_buffer_set.drop 1) := by
  conv_lhs => rw [assembleLines_front done]
  rw [codeSizeNow, codeSizeNow, List.map_cons, List.sum_cons, List.length_nil, Nat.zero_add]

/-- The labels of a file have the addresses at which the lines before them end. -/
theorem defines_sysdarftAssemble (done : sysdarftAssemble bc file origin markers = .ok (object, position)) {address : ℕ} :
    Defines object.symbol_table name address ↔ Defines markers name address ∨
      ∃ lines line rest object', file = lines ++ line :: rest ∧ IsLabelLine name line ∧
        sysdarftAssemble bc lines origin markers = .ok (object', address) := by
  induction file using List.reverseRecOn generalizing object position with
  | nil =>
    obtain rfl := (Prod.mk.inj (Except.ok.inj done)).1
    refine (or_iff_left ?_).symm
    rintro ⟨lines, line, rest, _, empty, -⟩
    exact absurd empty.symm (List.append_ne_nil_of_right_ne_nil _ (List.cons_ne_nil _ _))
  | append_singleton file line ih =>
    obtain ⟨assembly', run, rfl, -⟩ := sysdarftAssemble_eq_ok.mp done
    obtain ⟨assembly, before, turn⟩ := assembleLines_concat.mp run
    have assembled := sysdarftAssemble_eq_ok.mpr ⟨assembly, before, rfl, rfl⟩
    rw [defines_assembleLine turn, codeSizeNow_drop before, Nat.add_comm, ih assembled, or_assoc]
    refine or_congr_right ⟨?_, ?_⟩
    · rintro (⟨lines, label, rest, object', rfl, labelled, earlier⟩ | ⟨labelled, rfl⟩)
      · exact ⟨lines, label, rest ++ [line], object', by rw [List.append_assoc, List.cons_append], labelled, earlier⟩
      · exact ⟨file, line, [], _, rfl, labelled, assembled⟩
    · rintro ⟨lines, label, rest, object', whole, labelled, earlier⟩
      rcases List.eq_nil_or_concat rest with rfl | ⟨rest, last, rfl⟩
      · obtain ⟨rfl, same⟩ := List.append_inj' whole rfl
        obtain rfl := List.singleton_inj.mp same
        exact .inr ⟨labelled, (Prod.mk.inj (Except.ok.inj (earlier.symm.trans assembled))).2⟩
      · rw [List.concat_eq_append, ← List.cons_append, ← List.append_assoc] at whole
        obtain ⟨rfl, -⟩ := List.append_inj' whole rfl
        exact .inl ⟨lines, label, rest, object', rfl, labelled, earlier⟩

/-- The chunks of the first lines are the first chunks of the file. -/
theorem sysdarftAssemble_front {rest : List (List Char)}
    (done : sysdarftAssemble bc (lines ++ rest) origin markers = .ok (object, position)) :
    ∃ earlier middle, sysdarftAssemble bc lines origin markers = .ok (earlier, middle) ∧ earlier.code <+: object.code := by
  induction rest using List.reverseRecOn generalizing object position with
  | nil =>
    rw [List.append_nil] at done
    exact ⟨object, position, done, List.prefix_rfl⟩
  | append_singleton rest line ih =>
    rw [← List.append_assoc] at done
    obtain ⟨assembly', run, rfl, -⟩ := sysdarftAssemble_eq_ok.mp done
    obtain ⟨assembly, before, turn⟩ := assembleLines_concat.mp run
    obtain ⟨earlier, middle, assembled, front⟩ := ih (sysdarftAssemble_eq_ok.mpr ⟨assembly, before, rfl, rfl⟩)
    obtain ⟨chunks, longer⟩ := (turn_of_assembleLine turn).chunks
    refine ⟨earlier, middle, assembled, front.trans ⟨chunks, ?_⟩⟩
    change assembly.instruction_buffer_set.drop 1 ++ chunks = assembly'.instruction_buffer_set.drop 1
    rw [longer, assembleLines_front before]
    rfl

/-- Every chunk of data is still as long as its width and zero. -/
def Reserved (code : List (List Byte)) (expressions : List DataExpression) : Prop :=
  ∀ data ∈ expressions, code[data.data_appearance]? = some (List.replicate data.data_byte_count 0)

theorem Reserved.append {code : List (List Byte)} {expressions : List DataExpression} (blank : Reserved code expressions)
    (chunks : List (List Byte)) : Reserved (code ++ chunks) expressions := fun data member => by
  have known := blank data member
  rw [List.getElem?_append_left (List.getElem?_eq_some_iff.mp known).1, known]

theorem Turn.blank_data (turn : Turn assembly assembly') (front : assembly.instruction_buffer_set ≠ [])
    (blank : Reserved (assembly.instruction_buffer_set.drop 1) assembly.data_processors) :
    Reserved (assembly'.instruction_buffer_set.drop 1) assembly'.data_processors := by
  have longer (code : List Byte) : (assembly.instruction_buffer_set ++ [code]).drop 1 =
    assembly.instruction_buffer_set.drop 1 ++ [code] :=
    List.drop_append_of_le_length (List.length_pos_iff.mpr front)
  cases turn with
  | blank => exact blank
  | label => exact blank
  | plain code =>
    change Reserved ((assembly.instruction_buffer_set ++ [code]).drop 1) assembly.data_processors
    rw [longer]
    exact blank.append _
  | reference name code =>
    change Reserved ((assembly.instruction_buffer_set ++ [code]).drop 1) assembly.data_processors
    rw [longer]
    exact blank.append _
  | data width data_string =>
    intro data member
    change ((assembly.instruction_buffer_set ++ [List.replicate width.bytes 0]).drop 1)[data.data_appearance]? = _
    rw [longer]
    rcases List.mem_append.mp member with early | last
    · exact blank.append _ data early
    · obtain rfl := List.mem_singleton.mp last
      have place : assembly.nextChunk = (assembly.instruction_buffer_set.drop 1).length := List.length_drop.symm
      exact place ▸ List.getElem?_concat_length

theorem blank_sysdarftAssemble (done : sysdarftAssemble bc file origin markers = .ok (object, position)) :
    Reserved object.code object.data_expression_identifiers := by
  obtain ⟨assembly, run, rfl, -⟩ := sysdarftAssemble_eq_ok.mp done
  refine (Effects.except_foldlM_rule (P := fun assembly : Assembly => assembly.instruction_buffer_set ≠ [] ∧
    Reserved (assembly.instruction_buffer_set.drop 1) assembly.data_processors) (fun before entry after _ kept turn => ?_)
    ⟨List.cons_ne_nil _ _, fun data member => absurd member List.not_mem_nil⟩ run).2
  have step := turn_of_assembleLine turn
  obtain ⟨chunks, longer⟩ := step.chunks
  exact ⟨longer ▸ List.append_ne_nil_of_left_ne_nil kept.1 chunks, step.blank_data kept.1 kept.2⟩

end Lines

/-! ## Runs over the files -/

/-- A label line in one of the files: the chunks assembled before it, and the origin they hand on. -/
def LabelAt (bc : Calculator) (org : ℕ) (files : List FileAttr) (name : List Char) (chunks : List (List Byte))
    (position : ℕ) : Prop :=
  ∃ before file after lines line rest objects, files = before ++ file :: after ∧ file.file = lines ++ line :: rest ∧
    IsLabelLine name line ∧ assembleFiles bc org (before ++ [{ file with file := lines }]) = .ok (objects, position) ∧
    chunks = objects.flatMap ObjectFile.code

section Files

variable {bc : Calculator} {org position behind : ℕ} {file : FileAttr} {before files rest : List FileAttr}
    {object : ObjectFile}
  {objects : List ObjectFile} {name : List Char} {chunks : List (List Byte)}

theorem assembleFiles_cons :
    assembleFiles bc org (file :: rest) = .ok (objects, behind) ↔ ∃ object position later,
      sysdarftAssemble bc file.file org file.symbol_table = .ok (object, position) ∧
        assembleFiles bc position rest = .ok (later, behind) ∧ objects = object :: later := by
  rw [assembleFiles, Effects.except_bind_eq_ok]
  constructor
  · rintro ⟨⟨object, position⟩, first, done⟩
    obtain ⟨⟨later, end_⟩, second, same⟩ := Effects.except_bind_eq_ok.mp done
    obtain ⟨rfl, rfl⟩ := Prod.mk.inj (Except.ok.inj same)
    exact ⟨object, position, later, Effects.except_mapError_eq_ok.mp first, second, rfl⟩
  · rintro ⟨object, position, later, first, second, rfl⟩
    refine ⟨(object, position), Effects.except_mapError_eq_ok.mpr first, ?_⟩
    dsimp only
    rw [second]
    rfl

theorem assembleFiles_single :
    assembleFiles bc org [file] = .ok (objects, behind) ↔ ∃ object,
      sysdarftAssemble bc file.file org file.symbol_table = .ok (object, behind) ∧ objects = [object] := by
  rw [assembleFiles_cons]
  constructor
  · rintro ⟨object, position, later, first, second, rfl⟩
    obtain ⟨rfl, rfl⟩ := Prod.mk.inj (Except.ok.inj second)
    exact ⟨object, first, rfl⟩
  · rintro ⟨object, first, rfl⟩
    exact ⟨object, behind, [], first, rfl, rfl⟩

/-- The bytes of all chunks. -/
def codeSize (chunks : List (List Byte)) : ℕ := (chunks.map List.length).sum

theorem codeSize_append (first second : List (List Byte)) :
    codeSize (first ++ second) = codeSize first + codeSize second := by
  rw [codeSize, List.map_append, List.sum_append, ← codeSize, ← codeSize]

/-- The origin behind the files. -/
theorem assembleFiles_position (done : assembleFiles bc org (file :: rest) = .ok (objects, behind)) :
    behind = (org + codeSize (objects.flatMap ObjectFile.code)) % 2 ^ 64 := by
  induction rest generalizing file org objects with
  | nil =>
    obtain ⟨object, first, rfl⟩ := assembleFiles_single.mp done
    obtain ⟨-, -, -, same⟩ := sysdarftAssemble_eq_ok.mp first
    rw [same, List.flatMap_singleton, codeSizeNow, Nat.add_mod_mod, codeSize]
  | cons second rest ih =>
    obtain ⟨object, position, later, first, behind_, rfl⟩ := assembleFiles_cons.mp done
    obtain ⟨-, -, -, same⟩ := sysdarftAssemble_eq_ok.mp first
    rw [ih behind_, same, List.flatMap_cons, codeSize_append, codeSizeNow, Nat.add_mod_mod, Nat.mod_add_mod, Nat.add_assoc]
    rfl

/-- A label is in the first file, or in one behind it. -/
theorem labelAt_cons : LabelAt bc org (file :: rest) name chunks position ↔
    (∃ lines line later object, file.file = lines ++ line :: later ∧ IsLabelLine name line ∧
      sysdarftAssemble bc lines org file.symbol_table = .ok (object, position) ∧ chunks = object.code) ∨
    ∃ object middle behind, sysdarftAssemble bc file.file org file.symbol_table = .ok (object, middle) ∧
      LabelAt bc middle rest name behind position ∧ chunks = object.code ++ behind := by
  constructor
  · rintro ⟨before, at_, after, lines, line, later, objects, whole, split, labelled, assembled, rfl⟩
    cases before with
    | nil =>
      obtain ⟨rfl, rfl⟩ := List.cons.inj whole
      obtain ⟨object, first, rfl⟩ := assembleFiles_single.mp assembled
      exact .inl ⟨lines, line, later, object, split, labelled, first, List.flatMap_singleton ..⟩
    | cons head before =>
      obtain ⟨rfl, rfl⟩ := List.cons.inj whole
      obtain ⟨object, middle, objects, first, behind, rfl⟩ := assembleFiles_cons.mp assembled
      exact .inr ⟨object, middle, _, first,
        ⟨before, at_, after, lines, line, later, objects, rfl, split, labelled, behind, rfl⟩, rfl⟩
  · rintro (⟨lines, line, later, object, split, labelled, first, rfl⟩ | ⟨object, middle, behind, first,
      ⟨before, at_, after, lines, line, later, objects, rfl, split, labelled, assembled, rfl⟩, rfl⟩)
    · exact ⟨[], file, rest, lines, line, later,
        [object], rfl, split, labelled, assembleFiles_single.mpr ⟨object, first, rfl⟩,
        (List.flatMap_singleton ..).symm⟩
    · exact ⟨file :: before, at_, after, lines, line, later, object :: objects, rfl, split, labelled,
        assembleFiles_cons.mpr ⟨object, middle, objects, first, assembled, rfl⟩, rfl⟩

/-- The labels of all files have the addresses at which what stands before them ends. -/
theorem defines_assembleFiles (undefined : ∀ file ∈ files, Undefined file.symbol_table)
    (done : assembleFiles bc org files = .ok (objects, behind)) :
    (∃ object ∈ objects, Defines object.symbol_table name position) ↔
      ∃ chunks, LabelAt bc org files name chunks position := by
  induction files generalizing org objects with
  | nil =>
    obtain ⟨rfl, -⟩ := Prod.mk.inj (Except.ok.inj done)
    refine iff_of_false (fun ⟨object, member, _⟩ => List.not_mem_nil member) ?_
    rintro ⟨chunks, before, file, after, lines, line, rest, objects, empty, -⟩
    exact List.append_ne_nil_of_right_ne_nil _ (List.cons_ne_nil _ _) empty.symm
  | cons file rest ih =>
    obtain ⟨first, later⟩ := List.forall_mem_cons.mp undefined
    obtain ⟨object, middle, objects, assembled, behind, rfl⟩ := assembleFiles_cons.mp done
    have new : ¬ Defines file.symbol_table name position := by
      rintro ⟨marker, member, -, defined, -⟩
      rw [(first.2 marker member).1] at defined
      cases defined
    rw [List.exists_mem_cons_iff, defines_sysdarftAssemble assembled, or_iff_right new, ih later behind]
    simp only [labelAt_cons, exists_or]
    refine or_congr ⟨?_, ?_⟩ ⟨?_, ?_⟩
    · rintro ⟨lines, line, rest, object', split, labelled, earlier⟩
      exact ⟨_, lines, line, rest, object', split, labelled, earlier, rfl⟩
    · rintro ⟨_, lines, line, rest, object', split, labelled, earlier, -⟩
      exact ⟨lines, line, rest, object', split, labelled, earlier⟩
    · rintro ⟨chunks, found⟩
      exact ⟨_, object, middle, chunks, assembled, found, rfl⟩
    · rintro ⟨_, object', middle', chunks, again, found, -⟩
      obtain ⟨-, rfl⟩ := Prod.mk.inj (Except.ok.inj (again.symm.trans assembled))
      exact ⟨chunks, found⟩

/-- What is assembled before a label comes first, and the label has the address behind it. -/
theorem LabelAt.front (found : LabelAt bc org files name chunks position)
    (done : assembleFiles bc org files = .ok (objects, behind)) :
    chunks <+: objects.flatMap ObjectFile.code ∧ position = (org + codeSize chunks) % 2 ^ 64 := by
  constructor
  · induction files generalizing org objects chunks with
    | nil =>
      obtain ⟨before, file, after, lines, line, rest, objects, empty, -⟩ := found
      exact absurd empty.symm (List.append_ne_nil_of_right_ne_nil _ (List.cons_ne_nil _ _))
    | cons file rest ih =>
      obtain ⟨object, middle, objects, first, behind, rfl⟩ := assembleFiles_cons.mp done
      rw [List.flatMap_cons]
      rcases labelAt_cons.mp found with ⟨lines, line, later, earlier, split, labelled, assembled, rfl⟩ |
        ⟨object', middle', behind', first', found, rfl⟩
      · rw [split] at first
        obtain ⟨earlier', middle', assembled', front⟩ := sysdarftAssemble_front first
        obtain ⟨rfl, -⟩ := Prod.mk.inj (Except.ok.inj (assembled.symm.trans assembled'))
        exact front.trans (List.prefix_append _ _)
      · obtain ⟨rfl, rfl⟩ := Prod.mk.inj (Except.ok.inj (first.symm.trans first'))
        exact List.prefix_append_right_inj _ |>.mpr (ih found behind)
  · obtain ⟨before, file, after, lines, line, rest, objects, -, -, -, assembled, rfl⟩ := found
    cases before with
    | nil => exact assembleFiles_position assembled
    | cons head before => exact assembleFiles_position assembled

end Files

end Sysdarft.Coding
