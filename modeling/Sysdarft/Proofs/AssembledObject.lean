import Sysdarft.Coding.Linker
import Sysdarft.Library.Effects
import Sysdarft.Proofs.DirectiveLines
import Sysdarft.Proofs.EncodeTarget

/-! # What the linker gets

Every turn of `SysdarftAssemble` leaves the tables alone, defines a label, or emits one chunk that at most one of
the tables records. So the names of a symbol table differ, every recorded chunk is there and is recorded once, and
what is defined is a label. The preprocessor only adds names.
-/

namespace Sysdarft.Coding

open Regex

/-! ## Labels -/

/-- A label: a letter, an underscore or a dot, and then digits as well. -/
def IsLabel (name : List Char) : Prop :=
  ∃ c rest, name = c :: rest ∧ isLabelStart c = true ∧ ∀ d ∈ rest, isLabelChar d = true

theorem IsLabel.ne_nil {name : List Char} (label : IsLabel name) : name ≠ [] := by
  obtain ⟨c, rest, rfl, -, -⟩ := label
  exact List.cons_ne_nil c rest

theorem not_isDecimal_of_isLabelStart {c : Char} (start : isLabelStart c = true) : Numerals.isDecimal c = false := by
  rw [← Bool.not_eq_true]
  intro digit
  have bounds := of_decide_eq_true digit
  have high : c.toNat ≤ 57 := bounds.2
  simp only [isLabelStart, Bool.or_eq_true, decide_eq_true_eq, beq_iff_eq] at start
  rcases start with ((⟨first, -⟩ | ⟨first, -⟩) | rfl) | rfl
  · have low : 65 ≤ c.toNat := first
    omega
  · have low : 97 ≤ c.toNat := first
    omega
  · exact absurd digit (by decide)
  · exact absurd digit (by decide)

/-- A label begins with no digit. -/
theorem IsLabel.first {name : List Char} (label : IsLabel name) :
    ∃ c rest, name = c :: rest ∧ Numerals.isDecimal c = false := by
  obtain ⟨c, rest, rfl, start, -⟩ := label
  exact ⟨c, rest, rfl, not_isDecimal_of_isLabelStart start⟩

theorem IsLabel.isLabelChar {name : List Char} (label : IsLabel name) : ∀ d ∈ name, isLabelChar d = true := by
  obtain ⟨c, rest, rfl, first, later⟩ := label
  intro d member
  rcases List.mem_cons.mp member with rfl | member
  · rw [Coding.isLabelChar, first, Bool.true_or]
  · exact later d member

theorem reads_labelWord : Reads labelWord IsLabel := by
  intro start word rest captures
  rw [labelWord, Regex.derives_seq]
  constructor
  · rintro ⟨left, right, before, after, rfl, rfl, head, tail⟩
    obtain ⟨c, first, rfl, rfl⟩ := derives_sat.mp head
    obtain ⟨later, rfl⟩ := derives_star_sat.mp tail
    exact ⟨⟨c, right, rfl, first, later⟩, rfl⟩
  · rintro ⟨⟨c, later, rfl, first, all⟩, rfl⟩
    exact ⟨[c], later, [], [], rfl, rfl, derives_sat.mpr ⟨c, first, rfl, rfl⟩, derives_star_sat.mpr ⟨all, rfl⟩⟩

/-- What a label line defines is a label. -/
theorem isLabel_of_lineMarkPattern {line : List Char} {captures : Captures}
    (found : fullMatch lineMarkPattern line = some captures) : IsLabel (captures.get 1) := by
  have derivation := fullMatch_derives found
  rw [lineMarkPattern, derives_bol_seq, reads_spaces.derives_seq] at derivation
  obtain ⟨-, white, behind, -, -, marked⟩ := derivation
  obtain ⟨name, tail, later, -, label, rfl, stop⟩ := reads_labelWord.derives_group_seq.mp marked
  simp only [reads_spaces.derives_seq, derives_chr_seq, derives_eol] at stop
  obtain ⟨_, _, _, _, _, _, _, _, _, _, -, -, rfl⟩ := stop
  exact label

/-! ## Symbol tables -/

/-- The names in a symbol table. -/
def symbolNames (markers : List LineMarker) : List (List Char) := markers.map LineMarker.line_marker_name

/-- The chunks that a symbol table records. -/
def symbolChunks (markers : List LineMarker) : List ℕ := markers.flatMap LineMarker.loc_it_appeared_in_cur_blk

/-- Everything defined is a label. -/
def DefinesLabels (markers : List LineMarker) : Prop :=
  ∀ marker ∈ markers, marker.is_defined = true → IsLabel marker.line_marker_name

section Tables

variable {name : List Char} {offset : ℕ} {markers markers' : List LineMarker}

private theorem emplaceMarker_cons {marker : LineMarker}
    (emplaced : emplaceMarker name offset (marker :: markers) = .ok markers') :
    marker.line_marker_name = name ∧ markers' = { marker with is_defined := true, marker_position := offset } :: markers ∨
      marker.line_marker_name ≠ name ∧ ∃ later, emplaceMarker name offset markers = .ok later ∧
        markers' = marker :: later := by
  rw [emplaceMarker] at emplaced
  split_ifs at emplaced with same defined
  · exact .inl ⟨same, (Except.ok.inj emplaced).symm⟩
  · cases result : emplaceMarker name offset markers with
    | error e =>
      rw [result] at emplaced
      cases emplaced
    | ok later =>
      rw [result] at emplaced
      exact .inr ⟨same, later, rfl, (Except.ok.inj emplaced).symm⟩

/-- A label is put in at the end when it is new. -/
theorem symbolNames_emplaceMarker (emplaced : emplaceMarker name offset markers = .ok markers') :
    symbolNames markers' = if name ∈ symbolNames markers then symbolNames markers else symbolNames markers ++ [name] := by
  induction markers generalizing markers' with
  | nil =>
    obtain rfl := Except.ok.inj emplaced
    rfl
  | cons marker markers ih =>
    rcases emplaceMarker_cons emplaced with ⟨rfl, rfl⟩ | ⟨differs, later, rest, rfl⟩
    · exact (if_pos List.mem_cons_self).symm
    · have same := congrArg (marker.line_marker_name :: ·) (ih rest)
      refine same.trans ?_
      by_cases known : name ∈ symbolNames markers
      · exact (congrArg (marker.line_marker_name :: ·) (if_pos known)).trans (if_pos (List.mem_cons_of_mem _ known)).symm
      · have new : name ∉ symbolNames (marker :: markers) := by
          intro member
          exact (List.mem_cons.mp member).elim (fun same => differs same.symm) known
        exact (congrArg (marker.line_marker_name :: ·) (if_neg known)).trans (if_neg new).symm

theorem symbolChunks_emplaceMarker (emplaced : emplaceMarker name offset markers = .ok markers') :
    symbolChunks markers' = symbolChunks markers := by
  induction markers generalizing markers' with
  | nil =>
    obtain rfl := Except.ok.inj emplaced
    rfl
  | cons marker markers ih =>
    rcases emplaceMarker_cons emplaced with ⟨rfl, rfl⟩ | ⟨-, later, rest, rfl⟩
    · rfl
    · exact congrArg (marker.loc_it_appeared_in_cur_blk ++ ·) (ih rest)

theorem definesLabels_emplaceMarker (label : IsLabel name) (labels : DefinesLabels markers)
    (emplaced : emplaceMarker name offset markers = .ok markers') : DefinesLabels markers' := by
  induction markers generalizing markers' with
  | nil =>
    obtain rfl := Except.ok.inj emplaced
    rintro marker member -
    obtain rfl := List.mem_singleton.mp member
    exact label
  | cons marker markers ih =>
    have behind : DefinesLabels markers := fun other member => labels other (List.mem_cons_of_mem _ member)
    rcases emplaceMarker_cons emplaced with ⟨rfl, rfl⟩ | ⟨-, later, rest, rfl⟩
    · intro other member defined
      rcases List.mem_cons.mp member with rfl | member
      · exact label
      · exact behind other member defined
    · intro other member defined
      rcases List.mem_cons.mp member with rfl | member
      · exact labels other List.mem_cons_self defined
      · exact ih behind rest other member defined

theorem symbolNames_addMarkerReference :
    symbolNames (addMarkerReference name offset markers) =
      if name ∈ symbolNames markers then symbolNames markers else symbolNames markers ++ [name] := by
  induction markers with
  | nil => rfl
  | cons marker markers ih =>
    rw [addMarkerReference]
    split_ifs with same known known
    · rfl
    · exact absurd (same ▸ List.mem_cons_self) known
    · have later : name ∈ symbolNames markers := (List.mem_cons.mp known).resolve_left (Ne.symm same)
      rw [if_pos later] at ih
      exact congrArg (marker.line_marker_name :: ·) ih
    · have later : name ∉ symbolNames markers := fun member => known (List.mem_cons_of_mem _ member)
      rw [if_neg later] at ih
      exact congrArg (marker.line_marker_name :: ·) ih

/-- One more chunk is recorded. -/
theorem symbolChunks_addMarkerReference :
    (symbolChunks (addMarkerReference name offset markers)).Perm (offset :: symbolChunks markers) := by
  induction markers with
  | nil => exact List.Perm.refl _
  | cons marker markers ih =>
    rw [addMarkerReference]
    split_ifs with same
    · simp only [symbolChunks, List.flatMap_cons, List.append_assoc, List.singleton_append]
      exact List.perm_middle
    · exact (ih.append_left _).trans List.perm_middle

theorem definesLabels_addMarkerReference (labels : DefinesLabels markers) :
    DefinesLabels (addMarkerReference name offset markers) := by
  induction markers with
  | nil =>
    rintro marker member defined
    obtain rfl := List.mem_singleton.mp member
    cases defined
  | cons marker markers ih =>
    have behind : DefinesLabels markers := fun other member => labels other (List.mem_cons_of_mem _ member)
    rw [addMarkerReference]
    split_ifs with same
    · intro other member defined
      rcases List.mem_cons.mp member with rfl | member
      · exact labels marker List.mem_cons_self defined
      · exact behind other member defined
    · intro other member defined
      rcases List.mem_cons.mp member with rfl | member
      · exact labels other List.mem_cons_self defined
      · exact ih behind other member defined

end Tables

/-! ## Turns of the assembler -/

/-- What a turn of the loop does. -/
inductive Turn (assembly : Assembly) : Assembly → Prop where
  | blank : Turn assembly assembly
  | label {name : List Char} {offset : ℕ} {markers : List LineMarker} (label : IsLabel name)
      (emplaced : emplaceMarker name offset assembly.appeared_line_markers = .ok markers) :
      Turn assembly { assembly with appeared_line_markers := markers }
  | plain (code : List Byte) : Turn assembly (assembly.emit code)
  | data (width : Width) (data_string : List Char) :
      Turn assembly
        ({ assembly with
          data_processors :=
            assembly.data_processors ++ [(⟨assembly.nextChunk, width.bytes, data_string⟩ : DataExpression)] }.emit
              (List.replicate width.bytes 0))
  | reference (name : List Char) (code : List Byte) :
      Turn assembly
        ({ assembly with
          appeared_line_markers := addMarkerReference name assembly.nextChunk assembly.appeared_line_markers }.emit code)

/-- The width of a data line is one of the four. -/
theorem processData_eq_some {line data_string : List Char} {data_byte_count : ℕ}
    (found : processData line = some (data_byte_count, data_string)) : ∃ width : Width, data_byte_count = width.bytes := by
  obtain ⟨hit, searched, same⟩ := Option.map_eq_some_iff.mp found
  obtain ⟨-, derivation⟩ := searchFrom_derives searched
  rw [dataPattern, reads_spaces.derives_seq] at derivation
  obtain ⟨white, behind, -, -, marked⟩ := derivation
  obtain ⟨behind, -, marked⟩ := derives_chr_seq.mp marked
  obtain ⟨digits, tail, later, -, ⟨width, rfl⟩, captures, stop⟩ := reads_width.derives_group_seq.mp marked
  simp only [(Reads.derives_seq (@reads_litNoCase "bit_data".toList)), reads_gap.derives_seq, derives_chr_seq,
    reads_dots.derives_group_seq] at stop
  obtain ⟨_, _, -, -, _, _, -, -, _, -, expression, _, rest, -, -, rfl, _, -, last⟩ := stop
  obtain ⟨-, rfl⟩ := reads_spaces.mp last
  refine ⟨width, ?_⟩
  have written : Captures.get [(1, width.digits), (2, expression)] 1 = width.digits := rfl
  rw [← (Prod.mk.inj same).1, captures, written]
  cases width <;> decide

/-- What a turn of the loop does to the tables and the buffer. -/
theorem turn_of_assembleLine {bc : Calculator} {origin : ℕ} {assembly assembly' : Assembly} {entry : ℕ × List Char}
    (turn : assembleLine bc origin assembly entry = .ok assembly') : Turn assembly assembly' := by
  rw [assembleLine] at turn
  dsimp only at turn
  split_ifs at turn with blank
  · obtain rfl := Except.ok.inj turn
    exact .blank
  · cases marked : fullMatch lineMarkPattern entry.2 with
    | some captures =>
      rw [marked] at turn
      obtain ⟨markers, emplaced, rfl⟩ := Effects.except_map_eq_ok.mp turn
      exact .label (isLabel_of_lineMarkPattern marked) emplaced
    | none =>
      rw [marked] at turn
      have code := Effects.except_mapError_eq_ok.mp turn
      rw [assembleCode] at code
      obtain ⟨string, -, code⟩ := Effects.except_bind_eq_ok.mp code
      cases string with
      | some bytes =>
        obtain rfl := Except.ok.inj code
        exact .plain bytes
      | none =>
        obtain ⟨reserved, -, code⟩ := Effects.except_bind_eq_ok.mp code
        cases reserved with
        | some bytes =>
          obtain rfl := Except.ok.inj code
          exact .plain bytes
        | none =>
          obtain ⟨line, -, code⟩ := Effects.except_bind_eq_ok.mp code
          dsimp only at code
          cases data : processData line with
          | some entry =>
            rw [data] at code
            obtain ⟨width, same⟩ := processData_eq_some data
            obtain rfl := Except.ok.inj code
            rw [same]
            exact .data width entry.2
          | none =>
            rw [data] at code
            dsimp only at code
            cases named : markerInLine assembly.appeared_line_markers line with
            | some operand =>
              rw [named] at code
              obtain ⟨bytes, -, code⟩ := Effects.except_bind_eq_ok.mp code
              obtain rfl := Except.ok.inj code
              exact .reference operand.1 bytes
            | none =>
              rw [named] at code
              obtain ⟨bytes, -, code⟩ := Effects.except_bind_eq_ok.mp code
              obtain rfl := Except.ok.inj code
              exact .plain bytes

/-! ## The tables of an object -/

/-- What the linker relies on: the names differ, the recorded chunks are among the first `count` ones and differ,
labels are defined, and the widths of data are the four. -/
structure Linkable (markers : List LineMarker) (expressions : List DataExpression) (count : ℕ) : Prop where
  names : (symbolNames markers).Nodup
  once : (symbolChunks markers ++ expressions.map DataExpression.data_appearance).Nodup
  inside : ∀ chunk ∈ symbolChunks markers ++ expressions.map DataExpression.data_appearance, chunk < count
  labels : DefinesLabels markers
  widths : ∀ data ∈ expressions, ∃ width : Width, data.data_byte_count = width.bytes

section Turns

variable {markers : List LineMarker} {expressions : List DataExpression} {count : ℕ}

private theorem nodup_names {name : List Char} {names : List (List Char)} (nodup : names.Nodup) :
    (if name ∈ names then names else names ++ [name]).Nodup := by
  split_ifs with known
  · exact nodup
  · exact nodup.append (List.nodup_singleton name) (List.disjoint_singleton.mpr known)

/-- A chunk more, and it is recorded. -/
private theorem chunk_recorded {chunks chunks' : List ℕ} (once : chunks.Nodup) (inside : ∀ chunk ∈ chunks, chunk < count)
    (more : chunks'.Perm (count :: chunks)) : chunks'.Nodup ∧ ∀ chunk ∈ chunks', chunk < count + 1 := by
  constructor
  · exact more.nodup_iff.mpr (List.nodup_cons.mpr ⟨fun member => lt_irrefl _ (inside count member), once⟩)
  · intro chunk member
    rcases List.mem_cons.mp (more.mem_iff.mp member) with rfl | member
    · exact Nat.lt_succ_self chunk
    · exact (inside chunk member).trans (Nat.lt_succ_self count)

/-- The tables so far, with the chunks behind the empty one. -/
def Assembly.Linkable (assembly : Assembly) : Prop :=
  Coding.Linkable assembly.appeared_line_markers assembly.data_processors assembly.nextChunk ∧
    assembly.instruction_buffer_set ≠ []

theorem Assembly.nextChunk_emit {assembly : Assembly} (nonempty : assembly.instruction_buffer_set ≠ []) (code : List Byte) :
    (assembly.emit code).nextChunk = assembly.nextChunk + 1 := by
  have positive := List.length_pos_iff.mpr nonempty
  simp only [nextChunk, emit, List.length_append, List.length_singleton]
  omega

theorem Turn.linkable {assembly assembly' : Assembly} (turn : Turn assembly assembly') (linkable : assembly.Linkable) :
    assembly'.Linkable := by
  obtain ⟨tables, nonempty⟩ := linkable
  have longer (code : List Byte) : (assembly.emit code).instruction_buffer_set ≠ [] := by simp [Assembly.emit]
  cases turn with
  | blank => exact ⟨tables, nonempty⟩
  | @label name offset markers label emplaced =>
    refine ⟨⟨?_, ?_, ?_, definesLabels_emplaceMarker label tables.labels emplaced, tables.widths⟩, nonempty⟩
    · rw [symbolNames_emplaceMarker emplaced]
      exact nodup_names tables.names
    · rw [symbolChunks_emplaceMarker emplaced]
      exact tables.once
    · rw [symbolChunks_emplaceMarker emplaced]
      exact tables.inside
  | plain code =>
    refine ⟨⟨tables.names, tables.once, fun chunk member => ?_, tables.labels, tables.widths⟩, longer code⟩
    rw [Assembly.nextChunk_emit nonempty]
    exact (tables.inside chunk member).trans (Nat.lt_succ_self _)
  | data width data_string =>
    have more : (symbolChunks assembly.appeared_line_markers ++
        (assembly.data_processors ++ [(⟨assembly.nextChunk, width.bytes, data_string⟩ : DataExpression)]).map
          DataExpression.data_appearance).Perm (assembly.nextChunk :: (symbolChunks assembly.appeared_line_markers ++
            assembly.data_processors.map DataExpression.data_appearance)) := by
      rw [List.map_append, ← List.append_assoc]
      exact List.perm_append_singleton ..
    obtain ⟨once, inside⟩ := chunk_recorded tables.once tables.inside more
    refine ⟨⟨tables.names, once, fun chunk member => ?_, tables.labels, fun data member => ?_⟩, longer _⟩
    · have bound := inside chunk member
      rwa [← Assembly.nextChunk_emit nonempty (List.replicate width.bytes 0)] at bound
    · rcases List.mem_append.mp member with early | last
      · exact tables.widths data early
      · exact ⟨width, by rw [List.mem_singleton.mp last]⟩
  | reference name code =>
    have more : (symbolChunks (addMarkerReference name assembly.nextChunk assembly.appeared_line_markers) ++
        assembly.data_processors.map DataExpression.data_appearance).Perm
          (assembly.nextChunk :: (symbolChunks assembly.appeared_line_markers ++
            assembly.data_processors.map DataExpression.data_appearance)) :=
      symbolChunks_addMarkerReference.append_right _
    obtain ⟨once, inside⟩ := chunk_recorded tables.once tables.inside more
    refine ⟨⟨?_, once, fun chunk member => ?_, definesLabels_addMarkerReference tables.labels, tables.widths⟩, longer code⟩
    · change (symbolNames (addMarkerReference name assembly.nextChunk assembly.appeared_line_markers)).Nodup
      rw [symbolNames_addMarkerReference]
      exact nodup_names tables.names
    · have bound := inside chunk member
      rwa [← Assembly.nextChunk_emit nonempty code] at bound

end Turns

/-! ## The names the preprocessor declares -/

section Declared

variable {env : Environment} {P : List LineMarker → Prop}

private theorem foldl_declareMarker (closed : ∀ markers name, P markers → P (declareMarker markers name))
    (names : List (List Char)) {markers : List LineMarker} (holds : P markers) : P (names.foldl declareMarker markers) := by
  induction names generalizing markers with
  | nil => exact holds
  | cons name names ih => exact ih (closed markers name holds)

private theorem declare_rule (closed : ∀ markers name, P markers → P (declareMarker markers name)) {line : List Char}
    {tables tables' : Tables} (declared : declare line tables = some tables') (holds : P tables.defined_line_marker) :
    P tables'.defined_line_marker := by
  rw [declare] at declared
  split_ifs at declared
  · obtain rfl := Option.some.inj declared
    exact holds
  · obtain rfl := Option.some.inj declared
    change P (processLab line tables.defined_line_marker)
    rw [processLab]
    split
    · exact foldl_declareMarker closed _ holds
    · exact holds
  · obtain rfl := Option.some.inj declared
    exact holds

variable {nested : List (List Char) → List IncludeFile → Tables → Nested (List (List Char) × Tables)}

private theorem processHeaders_rule
    (inner : ∀ file headers tables file' tables', (nested file headers tables).run = some (.ok (file', tables')) →
      P tables.defined_line_marker → P tables'.defined_line_marker)
    {headers : List IncludeFile} {line_number : ℕ} {tables tables' : Tables}
    (done : (processHeaders env nested headers line_number tables).run = some (.ok tables'))
    (holds : P tables.defined_line_marker) : P tables'.defined_line_marker := by
  rw [processHeaders] at done
  split at done
  · have ran := Effects.nested_adapt_eq_ok.mp done
    obtain ⟨⟨file, definition, headers⟩, -, ran⟩ := Effects.nested_bind_eq_ok.mp ran
    dsimp only at ran
    obtain ⟨⟨file', after⟩, ended, same⟩ := Effects.nested_bind_eq_ok.mp ran
    obtain rfl := Effects.nested_pure_eq_ok.mp same
    exact inner _ _ _ _ _ ended holds
  · obtain rfl := Effects.nested_pure_eq_ok.mp done
    exact holds

private theorem declareLines_rule (closed : ∀ markers name, P markers → P (declareMarker markers name))
    (inner : ∀ file headers tables file' tables', (nested file headers tables).run = some (.ok (file', tables')) →
      P tables.defined_line_marker → P tables'.defined_line_marker)
    {headers : List IncludeFile} {line_number : ℕ} {file file' : List (List Char)} {tables tables' : Tables}
    (done : (declareLines env nested headers line_number file tables).run = some (.ok (file', tables')))
    (holds : P tables.defined_line_marker) : P tables'.defined_line_marker := by
  induction file generalizing line_number file' tables with
  | nil =>
    obtain ⟨-, rfl⟩ := Prod.mk.inj (Effects.nested_pure_eq_ok.mp done)
    exact holds
  | cons line rest ih =>
    rw [declareLines] at done
    obtain ⟨middle, header, done⟩ := Effects.nested_bind_eq_ok.mp done
    have before := processHeaders_rule inner header holds
    dsimp only at done
    split_ifs at done with blank
    · obtain ⟨⟨later, after⟩, more, same⟩ := Effects.nested_bind_eq_ok.mp done
      obtain ⟨-, rfl⟩ := Prod.mk.inj (Effects.nested_pure_eq_ok.mp same)
      exact ih more before
    · split at done
      · rename_i declared
        obtain ⟨⟨later, after⟩, more, same⟩ := Effects.nested_bind_eq_ok.mp done
        obtain ⟨-, rfl⟩ := Prod.mk.inj (Effects.nested_pure_eq_ok.mp same)
        exact ih more (declare_rule closed declared before)
      · obtain ⟨-, rfl⟩ := Prod.mk.inj (Effects.nested_pure_eq_ok.mp done)
        exact before

/-- What declaring a name keeps is kept by the preprocessor. -/
theorem preProcess_rule (closed : ∀ markers name, P markers → P (declareMarker markers name)) {fuel : ℕ}
    {file file' : List (List Char)} {headers : List IncludeFile} {tables tables' : Tables}
    (done : (preProcess env fuel file headers tables).run = some (.ok (file', tables')))
    (holds : P tables.defined_line_marker) : P tables'.defined_line_marker := by
  induction fuel generalizing file file' headers tables tables' with
  | zero => cases done
  | succ fuel ih =>
    rw [preProcess] at done
    obtain ⟨⟨lines, markers⟩, -, done⟩ := Effects.nested_bind_eq_ok.mp done
    obtain ⟨⟨declared, after⟩, more, done⟩ := Effects.nested_bind_eq_ok.mp done
    obtain ⟨replaced, -, same⟩ := Effects.nested_bind_eq_ok.mp done
    obtain ⟨-, rfl⟩ := Prod.mk.inj (Effects.nested_pure_eq_ok.mp same)
    exact declareLines_rule closed (fun _ _ _ _ _ ran => ih ran) more (foldl_declareMarker closed markers holds)

end Declared

/-- Different names, and nothing else. -/
def Undefined (markers : List LineMarker) : Prop :=
  (symbolNames markers).Nodup ∧ ∀ marker ∈ markers, marker.is_defined = false ∧ marker.loc_it_appeared_in_cur_blk = []

theorem undefined_declareMarker (markers : List LineMarker) (name : List Char) (undefined : Undefined markers) :
    Undefined (declareMarker markers name) := by
  rw [declareMarker]
  split_ifs with present
  · exact undefined
  · have absent : name ∉ symbolNames markers := by
      intro member
      obtain ⟨marker, member, same⟩ := List.mem_map.mp member
      exact present (List.any_eq_true.mpr ⟨marker, member, beq_iff_eq.mpr same⟩)
    constructor
    · rw [symbolNames, List.map_append]
      exact undefined.1.append (List.nodup_singleton name) (List.disjoint_singleton.mpr absent)
    · intro marker member
      rcases List.mem_append.mp member with early | last
      · exact undefined.2 marker early
      · rw [List.mem_singleton.mp last]
        exact ⟨rfl, rfl⟩

theorem Undefined.linkable {markers : List LineMarker} (undefined : Undefined markers) : Linkable markers [] 0 := by
  have chunks : symbolChunks markers = [] := List.flatMap_eq_nil_iff.mpr fun marker member => (undefined.2 marker member).2
  constructor
  · exact undefined.1
  · rw [chunks]
    exact List.nodup_nil
  · rw [chunks]
    exact fun chunk member => absurd member List.not_mem_nil
  · intro marker member defined
    rw [(undefined.2 marker member).1] at defined
    cases defined
  · exact fun data member => absurd member List.not_mem_nil

/-! ## Objects -/

/-- An object that `PreProcess` and `SysdarftAssemble` make of a file. -/
def Compiled (env : Environment) (bc : Calculator) (object : ObjectFile) : Prop :=
  ∃ fuel file headers tables lines tables' origin origin',
    tables.defined_line_marker = [] ∧
    (preProcess env fuel file headers tables).run = some (.ok (lines, tables')) ∧
    sysdarftAssemble bc lines origin tables'.defined_line_marker = .ok (object, origin')

/-- No file opens, and no program is called. -/
def bareEnvironment : Environment where
  files := fun _ => none
  include_path := []
  regex := false
  grep := fun _ _ => ⟨[], [], 127⟩
  sed := fun _ _ => ⟨[], [], 127⟩
  reading := fun _ => none

def noTables : Tables := ⟨[], 0, .empty, .empty⟩

/-- What the linker gets. -/
theorem Compiled.linkable {env : Environment} {bc : Calculator} {object : ObjectFile} (compiled : Compiled env bc object) :
    Linkable object.symbol_table object.data_expression_identifiers object.code.length := by
  obtain ⟨fuel, file, headers, tables, lines, tables', origin, origin', new, preprocessed, assembled⟩ := compiled
  have undefined : Undefined tables'.defined_line_marker :=
    preProcess_rule undefined_declareMarker preprocessed (by rw [new]; exact ⟨List.nodup_nil, by simp⟩)
  obtain ⟨assembly, run, same⟩ := Effects.except_bind_eq_ok.mp assembled
  obtain ⟨rfl, -⟩ := Prod.mk.inj (Except.ok.inj same)
  have linkable : assembly.Linkable :=
    Effects.except_foldlM_rule (fun _ _ _ _ linkable turn => (turn_of_assembleLine turn).linkable linkable)
      ⟨undefined.linkable, List.cons_ne_nil _ _⟩ run
  have count : (assembly.instruction_buffer_set.drop 1).length = assembly.nextChunk := List.length_drop
  rw [count]
  exact linkable.1

end Sysdarft.Coding
