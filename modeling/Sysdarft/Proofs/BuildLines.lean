import Sysdarft.Proofs.SourceInstructions

/-! # The layout of a build, line by line

A line begins where a label in front of it would be, and that is what an `@` in it stands for. A chunk that names a label
differs from what the assembler made of its line in the ten bytes of the placeholder only.
-/

namespace Sysdarft.Coding

open Regex

/-! ## `@` -/

/-- A line with the address of the file for `@@` and that of the line for any other `@`. -/
def atText (origin here : ℕ) : List Char → List Char
  | '@' :: '@' :: rest => Numerals.decimal origin ++ atText origin here rest
  | '@' :: rest => Numerals.decimal here ++ atText origin here rest
  | c :: rest => c :: atText origin here rest
  | [] => []

section Addresses

variable {origin here : ℕ}

/-- The two replacements of the assembler. -/
theorem replaceAll_atText (line : List Char) :
    replaceAll (replaceAll line "@@".toList (Numerals.decimal origin)) "@".toList (Numerals.decimal here) =
      atText origin here line := by
  have absent : '@' ∉ Numerals.decimal origin := fun member =>
    absurd (Numerals.isDecimal_of_mem_decimal member) (by decide)
  have single (front text : List Char) : Text.replaceAll "@".toList (Numerals.decimal here) (front ++ text) =
      Text.replaceAll "@".toList (Numerals.decimal here) front ++
        Text.replaceAll "@".toList (Numerals.decimal here) text := by
    change Text.replaceAll ['@'] _ _ = Text.replaceAll ['@'] _ _ ++ Text.replaceAll ['@'] _ _
    rw [Text.replaceAll_singleton, Text.replaceAll_singleton, Text.replaceAll_singleton, List.flatMap_append]
  have number : Text.replaceAll "@".toList (Numerals.decimal here) (Numerals.decimal origin) = Numerals.decimal origin :=
    Text.replaceAll_of_not_infix fun occurs => absent (occurs.subset List.mem_cons_self)
  have other (c : Char) (away : c ≠ '@') : Text.replaceAll "@".toList (Numerals.decimal here) [c] = [c] :=
    Text.replaceAll_of_not_infix fun occurs => away (List.mem_singleton.mp (occurs.subset List.mem_cons_self)).symm
  rw [replaceAll_eq, replaceAll_eq]
  have kept {c : Char} {rest : List Char} (alone : ¬ "@@".toList <+: c :: rest) :
      Text.replaceAll "@@".toList (Numerals.decimal origin) (c :: rest) =
        [c] ++ Text.replaceAll "@@".toList (Numerals.decimal origin) rest := by
    rw [Text.replaceAll, Text.replaceAll, if_neg (by decide), if_neg (by decide), Text.replaceFrom_keep alone]
    rfl
  induction line using atText.induct with
  | case1 rest ih =>
    rw [show '@' :: '@' :: rest = "@@".toList ++ rest from rfl, Text.replaceAll_occurrence _ _ (by decide), single,
      number, ih]
    rfl
  | case2 rest alone ih =>
    have sign : Text.replaceAll "@".toList (Numerals.decimal here) ['@'] = Numerals.decimal here :=
      @Text.replaceAll_self "@".toList _ (by decide)
    rw [kept, single, ih, sign, atText.eq_2 _ _ _ alone]
    rintro ⟨tail, whole⟩
    exact alone tail (List.cons.inj whole).2.symm
  | case3 c rest pair away ih =>
    rw [kept, single, ih, other c away, atText.eq_3 _ _ _ _ pair away]
    · rfl
    · exact fun occurs => away (List.cons_prefix_cons.mp occurs).1.symm
  | case4 => rfl

/-- What the assembler does with a line once `@@` and `@` are replaced. -/
def assembleText (bc : Calculator) (assembly : Assembly) (text : List Char) : Except BuildError Assembly := do
  if let some code ← processResvb bc text then return assembly.emit code
  let line ← processAsciiValue text
  match processData line with
  | some (data_byte_count, data_string) =>
    let data : DataExpression := ⟨assembly.nextChunk, data_byte_count, data_string⟩
    return { assembly with data_processors := assembly.data_processors ++ [data] }.emit (List.replicate data_byte_count 0)
  | none =>
    match markerInLine assembly.appeared_line_markers line with
    | some (name, operand) =>
      let code ← coded (encodeInstruction bc (replaceAll line operand placeholder))
      let markers := addMarkerReference name assembly.nextChunk assembly.appeared_line_markers
      return { assembly with appeared_line_markers := markers }.emit code
    | none => return assembly.emit (← coded (encodeInstruction bc line))

theorem assembleCode_atText {bc : Calculator} {assembly : Assembly} {line : List Char}
    (unquoted : processString line = .ok none) : assembleCode bc origin assembly line =
      assembleText bc assembly
        (atText origin ((codeSizeNow assembly.instruction_buffer_set + origin) % 2 ^ 64) line) := by
  rw [assembleCode, unquoted, Effects.except_ok_bind, ← replaceAll_atText]
  rfl

end Addresses

/-! ## Labels -/

/-- A label stands between angle brackets. -/
def Mentions (text name : List Char) : Prop :=
  ∃ space space', (∀ c ∈ space, Numerals.isSpace c = true) ∧ (∀ c ∈ space', Numerals.isSpace c = true) ∧
    '<' :: (space ++ (name ++ (space' ++ ['>']))) <:+: text

/-- The first label of a table that stands between angle brackets. -/
def FirstMention (markers : List LineMarker) (text name : List Char) : Prop :=
  ∃ before marker after, markers = before ++ marker :: after ∧ marker.line_marker_name = name ∧ Mentions text name ∧
    ∀ other ∈ before, ¬ Mentions text other.line_marker_name

/-- No name has a dot in it. -/
def Undotted (markers : List LineMarker) : Prop := ∀ marker ∈ markers, '.' ∉ marker.line_marker_name

section Labels

variable {text name : List Char} {markers : List LineMarker}

theorem namePattern_lit (undotted : '.' ∉ name) : namePattern name = lit name := by
  induction name with
  | nil => rfl
  | cons c rest ih =>
    rw [List.mem_cons, not_or] at undotted
    rw [namePattern, if_neg (Ne.symm undotted.1), ih undotted.2]
    rfl

/-- A text between angle brackets, with white space around it. -/
theorem derives_bracket {start : Bool} {word rest : List Char} {captures : Captures} :
    Derives (seq (chr '<') (seq (star Coding.space) (seq (lit name) (seq (star Coding.space) (chr '>'))))) start word rest
        captures ↔
      (∃ space space', (∀ c ∈ space, Numerals.isSpace c = true) ∧ (∀ c ∈ space', Numerals.isSpace c = true) ∧
        word = '<' :: (space ++ (name ++ (space' ++ ['>'])))) ∧ captures = [] := by
  have spaces : Reads (star Coding.space) fun word => ∀ c ∈ word, Numerals.isSpace c = true := derives_star_sat
  have literal : Reads (lit name) fun word => word = name := derives_lit
  rw [derives_chr_seq]
  simp only [spaces.derives_seq, literal.derives_seq, derives_chr]
  constructor
  · rintro ⟨_, rfl, space, _, rfl, all, _, _, rfl, rfl, space', _, rfl, all', rfl, rfl⟩
    exact ⟨⟨space, space', all, all', rfl⟩, rfl⟩
  · rintro ⟨⟨space, space', all, all', rfl⟩, rfl⟩
    exact ⟨_, rfl, space, _, rfl, all, name, _, rfl, rfl, space', _, rfl, all', rfl, rfl⟩

theorem search_markerPattern (undotted : '.' ∉ name) :
    (search (markerPattern name) text).isSome = true ↔ Mentions text name := by
  constructor
  · intro found
    rw [markerPattern, namePattern_lit undotted] at found
    obtain ⟨found, hit⟩ := Option.isSome_iff_exists.mp found
    obtain ⟨split, derivation⟩ := searchFrom_derives hit
    obtain ⟨left, _, _, _, whole, -, -, tail⟩ := derives_seq.mp derivation
    obtain ⟨middle, right, _, _, rfl, -, bracket, -⟩ := derives_seq.mp tail
    obtain ⟨inner, -, bracket⟩ := derives_group.mp bracket
    obtain ⟨⟨space, space', all, all', rfl⟩, -⟩ := derives_bracket.mp bracket
    refine ⟨space, space', all, all', ?_⟩
    rw [split, whole]
    exact ⟨found.before ++ left, right ++ found.rest, by simp only [List.append_assoc]⟩
  · rintro ⟨space, space', all, all', stands⟩
    have nothing (index : ℕ) (start : Bool) (rest : List Char) :
        Derives (group index (star dot)) start [] rest [(index, [])] :=
      derives_group.mpr ⟨[], rfl, derives_star_sat.mpr ⟨fun c member => absurd member List.not_mem_nil, rfl⟩⟩
    have derives (start : Bool) (rest : List Char) : Derives (markerPattern name) start
        ('<' :: (space ++ (name ++ (space' ++ ['>'])))) rest
        ([(1, [])] ++ ([(2, '<' :: (space ++ (name ++ (space' ++ ['>']))))] ++ [(3, [])])) := by
      rw [markerPattern, namePattern_lit undotted]
      refine derives_seq.mpr ⟨[], _, _, _, rfl, rfl, nothing 1 _ _, ?_⟩
      refine derives_seq.mpr ⟨_, [], _, _, (List.append_nil _).symm, rfl, ?_, nothing 3 _ _⟩
      exact derives_group.mpr ⟨[], rfl, derives_bracket.mpr ⟨⟨space, space', all, all', rfl⟩, rfl⟩⟩
    exact searchFrom_isSome_of_infix derives stands true

/-- The label that the assembler records. -/
theorem FirstMention.labelIn (first : FirstMention markers text name) (undotted : Undotted markers) :
    labelIn markers text = some name := by
  obtain ⟨before, marker, after, rfl, rfl, here, others⟩ := first
  have known : marker ∈ before ++ marker :: after := List.mem_append_right _ List.mem_cons_self
  have early : markerInLine before text = none := by
    refine List.findSome?_eq_none_iff.mpr fun other member => Option.map_eq_none_iff.mpr ?_
    rw [← Option.not_isSome_iff_eq_none, search_markerPattern (undotted other (List.mem_append_left _ member))]
    exact others other member
  obtain ⟨found, hit⟩ := Option.isSome_iff_exists.mp ((search_markerPattern (undotted marker known)).mpr here)
  rw [markerInLine] at early
  rw [Coding.labelIn, markerInLine, List.findSome?_append, early, Option.none_or, List.findSome?_cons, hit]
  rfl

end Labels

/-! ## Lines of a build -/

/-- The layout of a linked file, and what it says of the lines. -/
structure LaidLines (bc : Calculator) (org : ℕ) (files : List FileAttr) (objects : List ObjectFile) (table : SymbolTable)
    (code : List (List Byte)) : Prop extends Laid bc org files objects table code where
  /-- A line begins where a label before it would be, and that is what an `@` stands for. -/
  places : ∀ before file after lines line rest, files = before ++ file :: after → file.file = lines ++ line :: rest →
    ∃ first origin assembly here, assembleFiles bc org before = .ok (first, origin) ∧
      assembleLines bc origin file.symbol_table lines = .ok assembly ∧
      (∀ name label, IsLabelLine name label →
        LabelAt bc org (before ++ { file with file := lines ++ label :: line :: rest } :: after) name
          (first.flatMap ObjectFile.code ++ assembly.instruction_buffer_set.drop 1) here) ∧
      (isLineEmpty line = false → fullMatch lineMarkPattern line = none → processString line = .ok none →
        ∃ next, assembleLine bc origin assembly (lines.length + 1, line) = .ok next ∧
          assembleText bc assembly (atText origin here line) = .ok next)
  /-- The first label that is mentioned has its address put in the only placeholder. -/
  references : ∀ line text name earlier chunks origin here, LineAt bc org files line earlier chunks origin here →
    IsInstructionLine bc origin here line text → Undotted earlier.symbol_table →
    FirstMention earlier.symbol_table text name →
    ∃ front back before address, LabelAt bc org files name before address ∧
      encodeInstruction bc (placeholderLine earlier.symbol_table text) = .ok (front ++ (tmpAddressHex ++ back)) ∧
      countSequence (front ++ (tmpAddressHex ++ back)) tmpAddressHex = 1 ∧
      code[chunks.length]? = some (front ++ (encodeConstantFromUint64 address ++ back))

section Files

variable {bc : Calculator} {org origin here behind : ℕ} {verbose : Bool} {before files rest after : List FileAttr}
  {file : FileAttr} {objects : List ObjectFile} {earlier linked : ObjectFile} {chunks : List (List Byte)}
  {line text name : List Char} {lines others : List (List Char)} {table : SymbolTable}

/-- A chunk that is recorded with a label is linked to it. -/
theorem Laid.reference (undefined : ∀ file ∈ files, Undefined file.symbol_table)
    (assembled : assembleFiles bc org files = .ok (objects, behind)) (laid : Laid bc org files objects table linked.code)
    (at_ : LineAt bc org files line earlier chunks origin here) (line_ : IsInstructionLine bc origin here line text)
    (labelled : labelIn earlier.symbol_table text = some name) :
    ∃ front back before address, LabelAt bc org files name before address ∧
      encodeInstruction bc (placeholderLine earlier.symbol_table text) = .ok (front ++ (tmpAddressHex ++ back)) ∧
      countSequence (front ++ (tmpAddressHex ++ back)) tmpAddressHex = 1 ∧
      linked.code[chunks.length]? = some (front ++ (encodeConstantFromUint64 address ++ back)) := by
  obtain ⟨object, code, bytes, placed, -, found, chunk⟩ := linked_line undefined assembled laid at_ line_
  have recorded := (placed.records name).mpr labelled
  cases chunk with
  | plain unused => exact absurd (mem_symbolChunks.mpr ⟨name, recorded⟩) unused
  | @data data expression processed chunk known place => exact absurd (place ▸ List.mem_map_of_mem known) placed.data
  | @reference symbol chunk known place defined once =>
    have named := (placed.records symbol.line_marker_name).mp ⟨symbol, known, rfl, place⟩
    obtain rfl := Option.some.inj (labelled.symm.trans named)
    obtain ⟨before, label⟩ := (laid.symbols symbol.line_marker_name _).mp ⟨defined, rfl⟩
    obtain ⟨front, back, rfl, replaced⟩ := @replaceSequence_occurrence tmpAddressHex
      (encodeConstantFromUint64 (symbolAddress table symbol.line_marker_name)) code (List.cons_ne_nil _ _)
      (infix_of_countSequence (by rw [once]; exact Nat.one_pos))
    exact ⟨front, back, before, _, label, placed.encoded, once, replaced ▸ found⟩

theorem assembleFiles_place (assembled : assembleFiles bc org (before ++ file :: after) = .ok (objects, behind))
    (split : file.file = lines ++ line :: others) :
    ∃ first origin assembly here, assembleFiles bc org before = .ok (first, origin) ∧
      assembleLines bc origin file.symbol_table lines = .ok assembly ∧
      (∀ name label, IsLabelLine name label →
        LabelAt bc org (before ++ { file with file := lines ++ label :: line :: others } :: after) name
          (first.flatMap ObjectFile.code ++ assembly.instruction_buffer_set.drop 1) here) ∧
      (isLineEmpty line = false → fullMatch lineMarkPattern line = none → processString line = .ok none →
        ∃ next, assembleLine bc origin assembly (lines.length + 1, line) = .ok next ∧
          assembleText bc assembly (atText origin here line) = .ok next) := by
  obtain ⟨first, origin, later, early, done, rfl⟩ := assembleFiles_append.mp assembled
  obtain ⟨object, position, last, whole, -, rfl⟩ := assembleFiles_cons.mp done
  rw [split] at whole
  obtain ⟨final, run, -, -⟩ := sysdarftAssemble_eq_ok.mp whole
  obtain ⟨entries, numbers⟩ := numbered_append (lines ++ [line]) others
  rw [← List.append_cons] at numbers
  rw [assembleLines, numbers, List.foldlM_append] at run
  obtain ⟨next, front, -⟩ := Effects.except_bind_eq_ok.mp run
  obtain ⟨assembly, here, turn⟩ := assembleLines_concat.mp front
  have partly := sysdarftAssemble_eq_ok.mpr ⟨assembly, here, rfl, rfl⟩
  refine ⟨first, origin, assembly, (origin + codeSizeNow (assembly.instruction_buffer_set.drop 1)) % 2 ^ 64, early, here,
    fun name label labelled => ?_, fun visible unlabelled unquoted => ?_⟩
  · refine ⟨before, _, after, lines, label, line :: others, _, rfl, rfl, labelled, assembleFiles_append.mpr
      ⟨first, origin, _, early, assembleFiles_single.mpr ⟨_, partly, rfl⟩, rfl⟩, ?_⟩
    rw [List.flatMap_append, List.flatMap_singleton]
  · have kept := turn
    rw [assembleLine, visible, if_neg Bool.false_ne_true, unlabelled] at kept
    have code := Effects.except_mapError_eq_ok.mp kept
    rw [assembleCode_atText unquoted, codeSizeNow_drop here, Nat.add_comm] at code
    exact ⟨next, turn, code⟩

/-- Every line of a build is where the layout says. -/
theorem sysdarftLink_lines {env : Environment} (build : Build env bc verbose org files objects linked) :
    ∃ table, LaidLines bc org files objects table linked.code := by
  obtain ⟨table, laid⟩ := build.laid
  obtain ⟨behind, assembled⟩ := build.assembled
  refine ⟨table, laid, ?_, fun line text name earlier chunks origin here at_ line_ undotted first => ?_⟩
  · rintro before file after lines line rest rfl split
    exact assembleFiles_place assembled split
  · exact laid.reference (fun file member => (build.preprocessed file member).undefined) assembled at_ line_
      (first.labelIn undotted)

end Files

/-! ## Two files with `@` -/

/-- A file of these lines whose labels are declared. -/
def FileAttr.ofLines (lines labels : List (List Char)) : FileAttr :=
  ⟨"at".toList, lines, labels.map fun name => ⟨name, 0, false, false, []⟩, .empty, []⟩

def placeFile : FileAttr :=
  .ofLines ["NOP".toList, "JMP <%CB>, <foo>".toList, "foo:".toList, ".64bit_data <@>".toList] ["foo".toList]

def placeObject : ObjectFile where
  code := [[0x00], [0x30, 0x01, 0x64, 0xA2] ++ tmpAddressHex, List.replicate 8 0]
  symbol_table := [⟨"foo".toList, 31, true, true, [1]⟩]
  data_expression_identifiers := [⟨2, 8, "31".toList⟩]

/-- The jump and the `@` give the same address. -/
def placeLinked : ObjectFile where
  code := [[0x00], [0x30, 0x01, 0x64, 0xA2] ++ encodeConstantFromUint64 31, LittleEndian.bytes 8 31]
  symbol_table := [⟨"foo".toList, 31, false, false, []⟩]
  data_expression_identifiers := []

theorem sysdarftLink_lines_place :
    ∃ table, LaidLines numeralCalculator 16 [placeFile] [placeObject] table placeLinked.code := by
  refine @sysdarftLink_lines numeralCalculator 16 false [placeFile] [placeObject] placeLinked bareEnvironment
    ⟨List.forall_mem_singleton.mpr ?_, ⟨39, rfl⟩, rfl⟩
  exact ⟨1, placeFile.file, [], ⟨[], 16, .empty, .empty⟩, ⟨placeFile.symbol_table, 16, .empty, .empty⟩, rfl, rfl, rfl⟩

/-- The address of a line for every `@` in it. -/
def everyAt (here : ℕ) (line : List Char) : List Char :=
  line.flatMap fun c => if c = '@' then Numerals.decimal here else [c]

/-- The text of a `.string` keeps its `@`. -/
theorem not_everyAt :
    Build bareEnvironment numeralCalculator false 0 [.ofLines [".string < \"@\" >".toList] []] [⟨[[0x40]], [], []⟩]
        ⟨[[0x40]], [], []⟩ ∧
      sysdarftAssemble numeralCalculator [everyAt 0 ".string < \"@\" >".toList] 0 [] = .ok (⟨[[0x30]], [], []⟩, 1) := by
  refine ⟨⟨List.forall_mem_singleton.mpr ?_, ⟨1, rfl⟩, rfl⟩, rfl⟩
  exact ⟨1, [".string < \"@\" >".toList], [], ⟨[], 0, .empty, .empty⟩, ⟨[], 0, .empty, .empty⟩, rfl, rfl, rfl⟩

end Sysdarft.Coding
