import Sysdarft.Proofs.AssembledObject
import Sysdarft.Proofs.LineText

/-! # Sections of a file

`line_marker_register` buffers the lines up to the next label without a dot, and that line with them. The buffer is
rewritten when such a line ends it, or at the end of the file. A line that is no such label is therefore rewritten
once, with the labels between the last of these lines in front of it and the next one behind it.
-/

namespace Sysdarft.Coding

open Regex

/-! ## Label lines -/

/-- What is left of a label line. -/
def labelOf (line : List Char) : List Char := replaceAll (replaceAll (replaceAll line [' '] []) ['\t'] []) [':'] []

/-- A label without a dot, which begins a section. -/
def isUpperLine (line : List Char) : Bool := lineMatches lineMarkPattern line && !(labelOf line).contains '.'

/-- A label with a dot, which belongs to a section. -/
def isSubLine (line : List Char) : Bool := lineMatches lineMarkPattern line && (labelOf line).contains '.'

theorem labelOf_eq (line : List Char) :
    labelOf line = ((line.filter (· != ' ')).filter (· != '\t')).filter (· != ':') := by
  rw [labelOf, replaceAll_erase, replaceAll_erase, replaceAll_erase]

theorem mem_labelOf {c : Char} {line : List Char} : c ∈ labelOf line ↔ c ∈ line ∧ c ≠ ' ' ∧ c ≠ '\t' ∧ c ≠ ':' := by
  simp only [labelOf_eq, List.mem_filter, bne_iff_ne, and_assoc]

theorem not_isLabelChar_of_isSpace {c : Char} (blank : Numerals.isSpace c = true) : isLabelChar c = false := by
  rcases isSpace_cases blank with rfl | rfl | rfl | rfl | rfl | rfl
  all_goals decide

/-- A label line is a label, a colon and white space, of which spaces and tabs go. -/
theorem labelOf_shape {line : List Char} (marked : lineMatches lineMarkPattern line = true) :
    (∀ c ∈ line, isLabelChar c = true ∨ c = ':' ∨ Numerals.isSpace c = true) ∧
      ∃ front name back, IsLabel name ∧ labelOf line = front ++ (name ++ back) ∧ (∀ c ∈ front, Numerals.isSpace c = true) ∧
        ∀ c ∈ back, Numerals.isSpace c = true := by
  obtain ⟨captures, found⟩ := Option.isSome_iff_exists.mp marked
  have derivation := fullMatch_derives found
  rw [lineMarkPattern, derives_bol_seq, reads_spaces.derives_seq] at derivation
  obtain ⟨-, front, behind, rfl, white, marked⟩ := derivation
  obtain ⟨name, tail, later, rfl, label, -, marked⟩ := reads_labelWord.derives_group_seq.mp marked
  simp only [reads_spaces.derives_seq, derives_chr_seq, derives_eol] at marked
  obtain ⟨gap, _, rfl, gapped, _, rfl, blank, _, rfl, blanked, -, rfl, -⟩ := marked
  constructor
  · intro c member
    simp only [List.mem_append, List.mem_cons, List.not_mem_nil, or_false] at member
    rcases member with first | inside | second | rfl | third
    · exact .inr (.inr (white c first))
    · exact .inl (label.isLabelChar c inside)
    · exact .inr (.inr (gapped c second))
    · exact .inr (.inl rfl)
    · exact .inr (.inr (blanked c third))
  · have kept {c : Char} (bad : isLabelChar c = false) : name.filter (· != c) = name := by
      rw [List.filter_eq_self]
      intro d member
      rw [bne_iff_ne]
      rintro rfl
      rw [label.isLabelChar d member] at bad
      cases bad
    have strip (text : List Char) (blank : ∀ c ∈ text, Numerals.isSpace c = true) :
        ∀ c ∈ ((text.filter (· != ' ')).filter (· != '\t')).filter (· != ':'), Numerals.isSpace c = true :=
      fun c member => blank c (List.mem_of_mem_filter (List.mem_of_mem_filter (List.mem_of_mem_filter member)))
    refine ⟨_, name, (((gap ++ ':' :: (blank ++ [])).filter (· != ' ')).filter (· != '\t')).filter (· != ':'), label,
      ?_, strip front white, ?_⟩
    · rw [labelOf_eq]
      simp only [List.filter_append]
      rw [kept (show isLabelChar ' ' = false by decide), kept (show isLabelChar '\t' = false by decide),
        kept (show isLabelChar ':' = false by decide)]
    · intro c member
      obtain ⟨member, colon⟩ := List.mem_filter.mp member
      have inside := List.mem_of_mem_filter (List.mem_of_mem_filter member)
      rcases List.mem_append.mp inside with first | second
      · exact gapped c first
      · rcases List.mem_cons.mp second with rfl | last
        · exact absurd rfl (bne_iff_ne.mp colon)
        · rw [List.append_nil] at last
          exact blanked c last

/-- What is left of a label line is not empty. -/
theorem labelOf_ne_nil {line : List Char} (marked : lineMatches lineMarkPattern line = true) : labelOf line ≠ [] := by
  obtain ⟨-, front, name, back, label, shape, -⟩ := labelOf_shape marked
  rw [shape]
  exact List.append_ne_nil_of_right_ne_nil _ (List.append_ne_nil_of_left_ne_nil label.ne_nil _)

/-- It begins with the first character of a label or with white space. -/
theorem head_labelOf {line : List Char} (marked : lineMatches lineMarkPattern line = true) {c : Char}
    (head : c ∈ (labelOf line).head?) : isLabelStart c = true ∨ Numerals.isSpace c = true := by
  obtain ⟨-, front, name, back, ⟨first, rest, rfl, start, -⟩, shape, blank, -⟩ := labelOf_shape marked
  rw [shape] at head
  cases front with
  | nil =>
    obtain rfl := Option.some.inj head
    exact .inl start
  | cons d front =>
    obtain rfl := Option.some.inj head
    exact .inr (blank d List.mem_cons_self)

/-- It has the characters of labels, and white space that is no space or tab. -/
theorem labelOf_chars {line : List Char} (marked : lineMatches lineMarkPattern line = true) {c : Char}
    (member : c ∈ labelOf line) : isLabelChar c = true ∨ Numerals.isSpace c = true := by
  obtain ⟨inside, -, -, colon⟩ := mem_labelOf.mp member
  rcases (labelOf_shape marked).1 c inside with inside | same | blank
  · exact .inl inside
  · exact absurd same colon
  · exact .inr blank

/-! ## Sections -/

/-- The lines behind the last upper label. -/
def openSection (file : List (List Char)) : List (List Char) :=
    (file.reverse.takeWhile fun line => !isUpperLine line).reverse

/-- The last upper label. -/
def upperLabel (file : List (List Char)) : List Char := ((file.reverse.find? isUpperLine).map labelOf).getD []

/-- The label that a sub-label stands for. -/
def scopedName (upper sub : List Char) : List Char := upper ++ replaceAll sub ['.'] ['_']

/-- A line before the buffer is rewritten. -/
def pendingLine (upper line : List Char) : List Char :=
  if isSubLine line then scopedName upper (labelOf line) ++ [':'] else line

/-- The sub-labels of a section. -/
def subLabels (section_ : List (List Char)) : List (List Char) := (section_.filter isSubLine).map labelOf

/-- The map for the sub-labels of a section. -/
def sectionMarkers (upper : List Char) (section_ : List (List Char)) : OrderedMap (List Char) (List Char) :=
  (subLabels section_).foldl (fun markers sub => markers.emplace sub (scopedName upper sub)) .empty

section Growing

variable {file : List (List Char)} {line : List Char}

theorem openSection_upper (upper : isUpperLine line = true) : openSection (file ++ [line]) = [] := by
  rw [openSection, List.reverse_concat, List.takeWhile_cons_of_neg (by rw [upper]; decide)]
  rfl

theorem openSection_other (other : isUpperLine line = false) : openSection (file ++ [line]) = openSection file ++
    [line] := by
  rw [openSection, List.reverse_concat, List.takeWhile_cons_of_pos (by rw [other]; rfl), List.reverse_cons, openSection]

theorem upperLabel_upper (upper : isUpperLine line = true) : upperLabel (file ++ [line]) = labelOf line := by
  rw [upperLabel, List.reverse_concat, List.find?_cons_of_pos upper]
  rfl

theorem upperLabel_other (other : isUpperLine line = false) : upperLabel (file ++ [line]) = upperLabel file := by
  rw [upperLabel, List.reverse_concat, List.find?_cons_of_neg (by rw [other]; exact Bool.false_ne_true), upperLabel]

theorem subLabels_append (first second : List (List Char)) :
    subLabels (first ++ second) = subLabels first ++ subLabels second := by
  rw [subLabels, List.filter_append, List.map_append, subLabels, subLabels]

theorem subLabels_sub (sub : isSubLine line = true) : subLabels [line] = [labelOf line] := by
  rw [subLabels, List.filter_cons_of_pos sub]
  rfl

theorem subLabels_other (other : isSubLine line = false) : subLabels [line] = [] := by
  rw [subLabels, List.filter_cons_of_neg (by rw [other]; exact Bool.false_ne_true)]
  rfl

theorem sectionMarkers_sub (upper : List Char) (section_ : List (List Char)) (sub : isSubLine line = true) :
    sectionMarkers upper (section_ ++ [line]) =
      (sectionMarkers upper section_).emplace (labelOf line) (scopedName upper (labelOf line)) := by
  rw [sectionMarkers, subLabels_append, subLabels_sub sub, List.foldl_append]
  rfl

theorem sectionMarkers_other (upper : List Char) (section_ : List (List Char)) (other : isSubLine line = false) :
    sectionMarkers upper (section_ ++ [line]) = sectionMarkers upper section_ := by
  rw [sectionMarkers, subLabels_append, subLabels_other other, List.append_nil, sectionMarkers]

end Growing

/-! ## The loop -/

/-- What the local variables are after some lines. -/
structure Registered (file : List (List Char)) (state : SectionState) : Prop where
  upper : state.upper_line_marker = upperLabel file
  markers : state.sub_linemarkers = sectionMarkers (upperLabel file) (openSection file)
  current : state.current_file_section = (openSection file).map (pendingLine (upperLabel file))
  lengths : state.processed_file_sections.flatten.length + state.current_file_section.length = file.length
  distinct : state.result.Nodup

/-- A turn of the loop: the line joins the buffer, or ends the section with it. -/
inductive RegistersLine (reading : TargetReading) (state : SectionState) (line : List Char) : SectionState → Prop
  | sub (sub : isSubLine line = true) (new : scopedName state.upper_line_marker (labelOf line) ∉ state.result) :
      RegistersLine reading state line
        { state with
          sub_linemarkers := state.sub_linemarkers.emplace (labelOf line) (scopedName state.upper_line_marker (labelOf line))
          result := state.result ++ [scopedName state.upper_line_marker (labelOf line)]
          current_file_section := state.current_file_section ++
          [scopedName state.upper_line_marker (labelOf line) ++ [':']] }
  | upper {section_ : List (List Char)} (upper : isUpperLine line = true) (new : labelOf line ∉ state.result)
      (rewritten : (state.current_file_section ++ [labelOf line ++ [':']]).mapM
        (replaceFoundMarkers reading state.sub_linemarkers) = .ok section_) :
      RegistersLine reading state line
        { upper_line_marker := labelOf line
          result := state.result ++ [labelOf line]
          sub_linemarkers := .empty
          current_file_section := []
          processed_file_sections := state.processed_file_sections ++ [section_] }
  | plain (marked : lineMatches lineMarkPattern line = false) :
      RegistersLine reading state line { state with current_file_section := state.current_file_section ++ [line] }

theorem registerLine_registers {reading : TargetReading} {state state' : SectionState} {line : List Char}
    (done : registerLine reading state line = .ok state') : RegistersLine reading state line state' := by
  cases marked : lineMatches lineMarkPattern line with
  | false =>
    rw [registerLine, marked, if_neg Bool.false_ne_true] at done
    obtain rfl := Except.ok.inj done
    exact .plain marked
  | true =>
    rw [registerLine, marked, if_pos rfl] at done
    change (if '.' ∈ labelOf line then _ else _) = _ at done
    by_cases dot : '.' ∈ labelOf line
    · rw [if_pos dot] at done
      change (if scopedName state.upper_line_marker (labelOf line) ∈ state.result then _ else _) = _ at done
      split_ifs at done with known
      obtain rfl := Except.ok.inj done
      exact .sub (by rw [isSubLine, marked, Bool.true_and, List.contains_iff_mem]; exact dot) known
    · rw [if_neg dot] at done
      obtain ⟨section_, rewritten, done⟩ := Effects.except_bind_eq_ok.mp done
      have upper : isUpperLine line = true := by
        rw [isUpperLine, marked, Bool.true_and, Bool.not_eq_true', ← Bool.not_eq_true, List.contains_iff_mem]
        exact dot
      dsimp only at done
      split_ifs at done with known
      · cases done
      · obtain rfl := Except.ok.inj done
        exact .upper upper known rewritten

theorem isUpperLine_of_isSubLine {line : List Char} (sub : isSubLine line = true) : isUpperLine line = false := by
  rw [isSubLine, Bool.and_eq_true] at sub
  rw [isUpperLine, sub.2, Bool.not_true, Bool.and_false]

theorem isSubLine_of_isUpperLine {line : List Char} (upper : isUpperLine line = true) : isSubLine line = false := by
  cases sub : isSubLine line with
  | false => rfl
  | true => rw [isUpperLine_of_isSubLine sub] at upper; cases upper

theorem registered_empty : Registered [] ⟨[], [], .empty, [], []⟩ := ⟨rfl, rfl, rfl, rfl, List.nodup_nil⟩

theorem Registered.step {reading : TargetReading} {file : List (List Char)} {state state' : SectionState} {line : List Char}
    (before : Registered file state) (done : registerLine reading state line = .ok state') :
    Registered (file ++ [line]) state' := by
  cases registerLine_registers done with
  | sub sub new =>
    have other := isUpperLine_of_isSubLine sub
    refine ⟨?_, ?_, ?_, ?_, ?_⟩
    · rw [upperLabel_other other, before.upper]
    · rw [upperLabel_other other, openSection_other other, sectionMarkers_sub _ _ sub, before.markers, before.upper]
    · rw [upperLabel_other other, openSection_other other, List.map_append, ← before.current, before.upper]
      rw [List.map_singleton, pendingLine, if_pos sub]
    · rw [List.length_append, List.length_append, ← before.lengths]
      rfl
    · rw [← List.concat_eq_append]
      exact List.Nodup.concat new before.distinct
  | upper upper new rewritten =>
    refine ⟨?_, ?_, ?_, ?_, ?_⟩
    · rw [upperLabel_upper upper]
    · rw [openSection_upper upper]
      rfl
    · rw [openSection_upper upper]
      rfl
    · have same := (Effects.except_mapM_eq_ok.mp rewritten).length_eq
      rw [List.length_append, List.length_singleton] at same
      rw [List.flatten_append, List.length_append, List.flatten_singleton, ← same, List.length_append, ← before.lengths,
        List.length_singleton, List.length_nil]
      omega
    · rw [← List.concat_eq_append]
      exact List.Nodup.concat new before.distinct
  | plain marked =>
    have other : isUpperLine line = false := by rw [isUpperLine, marked, Bool.false_and]
    have plain : isSubLine line = false := by rw [isSubLine, marked, Bool.false_and]
    refine ⟨?_, ?_, ?_, ?_, before.distinct⟩
    · rw [upperLabel_other other, before.upper]
    · rw [upperLabel_other other, openSection_other other, sectionMarkers_other _ _ plain, before.markers]
    · rw [upperLabel_other other, openSection_other other, List.map_append, ← before.current, List.map_singleton,
        pendingLine,
        plain, if_neg Bool.false_ne_true]
    · rw [List.length_append, List.length_append, ← before.lengths]
      rfl

theorem registered_run {reading : TargetReading} {file later : List (List Char)} {state state' : SectionState}
    (before : Registered file state) (done : later.foldlM (registerLine reading) state = .ok state') :
    Registered (file ++ later) state' := by
  induction later generalizing file state with
  | nil =>
    obtain rfl := Except.ok.inj done
    rwa [List.append_nil]
  | cons line later ih =>
    rw [List.foldlM_cons] at done
    obtain ⟨middle, first, done⟩ := Effects.except_bind_eq_ok.mp done
    have whole := ih (before.step first) done
    rwa [List.append_assoc] at whole

/-! ## The rewriting -/

theorem targetRegex_plain {reading : TargetReading} {target : List Char}
    (plain : ∀ c ∈ target, isLabelChar c = true ∨ Numerals.isSpace c = true) :
    targetRegex reading target = some (lit target) := by
  rw [targetRegex, if_pos]
  rw [List.all_eq_true]
  intro c member
  rw [Bool.not_eq_true', ← Bool.not_eq_true, List.contains_iff_mem]
  intro bracket
  simp only [show "[]{}".toList = ['[', ']', '{', '}'] from rfl, List.mem_cons, List.not_mem_nil, or_false] at bracket
  rcases bracket with rfl | rfl | rfl | rfl
  all_goals exact absurd (plain _ member) (by decide)

/-- What does not occur is not replaced. -/
theorem replaceWholeWord_absent {reading : TargetReading} {text target replacement : List Char}
    (plain : ∀ c ∈ target, isLabelChar c = true ∨ Numerals.isSpace c = true) (absent : ¬ target <:+: text) :
    replaceWholeWord reading text target replacement = .ok text := by
  rw [replaceWholeWord, targetRegex_plain plain]
  dsimp only
  rw [searchAhead_wholeWord_absent absent]

/-- The keys of a section's map are its sub-labels, each with its scoped name. -/
theorem mem_sectionMarkers {upper : List Char} {section_ : List (List Char)} {entry : List Char × List Char} :
    entry ∈ (sectionMarkers upper section_).entries ↔ entry.1 ∈ subLabels section_ ∧ entry.2 = scopedName upper entry.1 := by
  obtain ⟨key, value⟩ := entry
  have fold : sectionMarkers upper section_ = ((subLabels section_).map fun sub => (sub, scopedName upper sub)).foldl
      (fun markers entry => markers.emplace entry.1 entry.2) .empty := by
    rw [List.foldl_map]
    rfl
  rw [OrderedMap.mem_entries_iff, fold, OrderedMap.find?_foldl_emplace]
  change (Option.or none _) = _ ↔ _
  rw [Option.none_or, List.find?_map, Option.map_map, Option.map_eq_some_iff]
  constructor
  · rintro ⟨sub, found, rfl⟩
    obtain rfl : sub = key := by simpa using List.find?_some found
    exact ⟨List.mem_of_find?_eq_some found, rfl⟩
  · rintro ⟨member, same⟩
    have known :
      ((subLabels section_).find? ((fun entry => decide (entry.1 = key)) ∘ fun sub => (sub, scopedName upper sub))).isSome :=
      List.find?_isSome.mpr ⟨key, member, decide_eq_true rfl⟩
    obtain ⟨sub, found⟩ := Option.isSome_iff_exists.mp known
    obtain rfl : sub = key := by simpa using List.find?_some found
    refine ⟨sub, ?_, same.symm⟩
    convert found

theorem exists_subLine {sub : List Char} {section_ : List (List Char)} (member : sub ∈ subLabels section_) :
    ∃ line ∈ section_, isSubLine line = true ∧ labelOf line = sub := by
  obtain ⟨line, inside, rfl⟩ := List.mem_map.mp member
  exact ⟨line, (List.mem_filter.mp inside).1, (List.mem_filter.mp inside).2, rfl⟩

/-- A sub-label has a dot, and the characters of a label or white space. -/
theorem subLabels_chars {sub : List Char} {section_ : List (List Char)} (member : sub ∈ subLabels section_) :
    '.' ∈ sub ∧ ∀ c ∈ sub, isLabelChar c = true ∨ Numerals.isSpace c = true := by
  obtain ⟨line, -, sub, rfl⟩ := exists_subLine member
  rw [isSubLine, Bool.and_eq_true, List.contains_iff_mem] at sub
  exact ⟨sub.2, fun c => labelOf_chars sub.1⟩

/-- The test in front of a replacement makes no difference. -/
theorem replaceFoundMarkers_eq (reading : TargetReading) (upper : List Char) (section_ : List (List Char))
    (line : List Char) :
    replaceFoundMarkers reading (sectionMarkers upper section_) line =
    replaceMarkers reading (sectionMarkers upper section_) line := by
  have plain : ∀ entry ∈ (sectionMarkers upper section_).entries, ∀ c ∈ entry.1, isLabelChar c = true ∨
    Numerals.isSpace c = true :=
    fun entry member => (subLabels_chars (mem_sectionMarkers.mp member).1).2
  rw [replaceFoundMarkers, replaceMarkers]
  generalize (sectionMarkers upper section_).entries = entries at plain
  induction entries generalizing line with
  | nil => rfl
  | cons entry entries ih =>
    have same : (if entry.1 <:+: line then replaceWholeWord reading line entry.1 entry.2 else .ok line) =
        replaceWholeWord reading line entry.1 entry.2 := by
      split_ifs with occurs
      · rfl
      · exact (replaceWholeWord_absent (plain entry List.mem_cons_self) occurs).symm
    rw [List.foldlM_cons, List.foldlM_cons, same]
    exact congrArg _ (funext fun line => ih line fun other member => plain other (List.mem_cons_of_mem _ member))

/-- What is in a buffer that was rewritten stays. -/
theorem processed_prefix {reading : TargetReading} {later : List (List Char)} {state state' : SectionState}
    (done : later.foldlM (registerLine reading) state = .ok state') :
    state.processed_file_sections <+: state'.processed_file_sections := by
  refine Effects.except_foldlM_rule (P := fun middle => state.processed_file_sections <+: middle.processed_file_sections) ?_
    (List.prefix_refl _) done
  intro middle line next _ holds turn
  cases registerLine_registers turn with
  | sub sub new => exact holds
  | upper upper new rewritten => exact holds.trans (List.prefix_append _ _)
  | plain marked => exact holds

/-- A line in the buffer is rewritten with the labels up to the end of its section. -/
theorem closes_line {reading : TargetReading} {file later : List (List Char)} {state state' : SectionState}
    {front last section_ : List (List Char)} {line : List Char} (before : Registered file state)
    (buffered : state.current_file_section = front ++ line :: last)
    (done : later.foldlM (registerLine reading) state = .ok state')
    (closed : state'.current_file_section.mapM (replaceMarkers reading state'.sub_linemarkers) = .ok section_) :
    ∃ line',
    ((state'.processed_file_sections ++ [section_]).flatten)[state.processed_file_sections.flatten.length + front.length]? =
        some line' ∧
      replaceMarkers reading
        (sectionMarkers (upperLabel file) (openSection file ++ later.takeWhile fun line => !isUpperLine line)) line =
          .ok line' := by
  induction later generalizing file state last with
  | nil =>
    obtain rfl := Except.ok.inj done
    rw [buffered] at closed
    obtain ⟨first, line', rest, rfl, early, here⟩ := Effects.except_mapM_split closed
    have lengths := (Effects.except_mapM_eq_ok.mp early).length_eq
    refine ⟨line', ?_, ?_⟩
    · rw [List.flatten_append, List.flatten_singleton, lengths, List.getElem?_append_right (Nat.le_add_right _ _),
        Nat.add_sub_cancel_left,
        List.getElem?_append_right le_rfl, Nat.sub_self]
      rfl
    · rw [List.takeWhile_nil, List.append_nil, ← before.markers]
      exact here
  | cons next later ih =>
    rw [List.foldlM_cons] at done
    obtain ⟨middle, turn, done⟩ := Effects.except_bind_eq_ok.mp done
    have behind := before.step turn
    have longer {x : List Char} {current : List (List Char)} (same : current = state.current_file_section ++ [x]) :
        current = front ++ line :: (last ++ [x]) := by
      rw [same, buffered, List.append_assoc]
      rfl
    cases registerLine_registers turn with
    | upper upper new rewritten =>
      have whole := longer (x := labelOf next ++ [':']) rfl
      have same : replaceFoundMarkers reading state.sub_linemarkers = replaceMarkers reading state.sub_linemarkers := by
        rw [before.markers]
        exact funext fun line => replaceFoundMarkers_eq ..
      rw [whole, same] at rewritten
      obtain ⟨first, line', rest, rfl, early, here⟩ := Effects.except_mapM_split rewritten
      have lengths := (Effects.except_mapM_eq_ok.mp early).length_eq
      obtain ⟨more, grown⟩ := processed_prefix done
      refine ⟨line', ?_, ?_⟩
      · rw [← grown, List.append_assoc, List.append_assoc, List.flatten_append,
          List.getElem?_append_right (Nat.le_add_right _ _),
          Nat.add_sub_cancel_left, List.singleton_append, List.flatten_cons, List.append_assoc, lengths,
          List.getElem?_append_right le_rfl, Nat.sub_self]
        rfl
      · rw [List.takeWhile_cons_of_neg (by rw [upper]; decide), List.append_nil, ← before.markers]
        exact here
    | sub sub new =>
      have other := isUpperLine_of_isSubLine sub
      have later := ih behind (longer rfl) done
      rw [upperLabel_other other, openSection_other other, List.append_assoc] at later
      rw [List.takeWhile_cons_of_pos (by rw [other]; rfl)]
      exact later
    | plain marked =>
      have other : isUpperLine next = false := by rw [isUpperLine, marked, Bool.false_and]
      have later := ih behind (longer rfl) done
      rw [upperLabel_other other, openSection_other other, List.append_assoc] at later
      rw [List.takeWhile_cons_of_pos (by rw [other]; rfl)]
      exact later

theorem lineMarkerRegister_length {reading : TargetReading} {file file' names : List (List Char)}
    (done : lineMarkerRegister reading file = .ok (file', names)) : file'.length = file.length := by
  obtain ⟨state, run, done⟩ := Effects.except_bind_eq_ok.mp done
  obtain ⟨section_, closed, same⟩ := Effects.except_bind_eq_ok.mp done
  obtain ⟨rfl, rfl⟩ := Prod.mk.inj (Except.ok.inj same)
  have lengths := (registered_run registered_empty run).lengths
  rw [List.nil_append] at lengths
  rw [List.flatten_append, List.flatten_singleton, List.length_append, ← (Effects.except_mapM_eq_ok.mp closed).length_eq,
    lengths]

/-- The lines of the section that a line belongs to, for a line that begins none. -/
def sectionOf (before : List (List Char)) (line : List Char) (after : List (List Char)) : List (List Char) :=
  openSection before ++ line :: after.takeWhile fun line => !isUpperLine line

/-- Every line that begins no section stays where it is, and is rewritten with the sub-labels of its section. -/
theorem lineMarkerRegister_line {reading : TargetReading} {before after file' names : List (List Char)} {line : List Char}
    (other : isUpperLine line = false) (done : lineMarkerRegister reading (before ++ line :: after) = .ok (file', names)) :
    ∃ line', file'[before.length]? = some line' ∧
      replaceMarkers reading (sectionMarkers (upperLabel before) (sectionOf before line after))
      (pendingLine (upperLabel before) line) =
        .ok line' := by
  obtain ⟨state, run, done⟩ := Effects.except_bind_eq_ok.mp done
  obtain ⟨section_, closed, same⟩ := Effects.except_bind_eq_ok.mp done
  obtain ⟨rfl, rfl⟩ := Prod.mk.inj (Except.ok.inj same)
  rw [List.foldlM_append] at run
  obtain ⟨first, early, run⟩ := Effects.except_bind_eq_ok.mp run
  rw [List.foldlM_cons] at run
  obtain ⟨second, turn, late⟩ := Effects.except_bind_eq_ok.mp run
  have start := registered_run registered_empty early
  rw [List.nil_append] at start
  have joined := start.step turn
  have current := joined.current
  rw [upperLabel_other other, openSection_other other, List.map_append, ← start.current, List.map_singleton] at current
  have lengths := joined.lengths
  rw [current, List.length_append, List.length_append, List.length_singleton, List.length_singleton] at lengths
  have later := closes_line joined current late closed
  rw [upperLabel_other other, openSection_other other, List.append_assoc, List.singleton_append,
    show second.processed_file_sections.flatten.length + first.current_file_section.length = before.length by omega] at later
  exact later

end Sysdarft.Coding
