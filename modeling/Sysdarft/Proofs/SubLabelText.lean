import Sysdarft.Proofs.Sections
import Sysdarft.Proofs.WholeWord

/-! # Replacing the sub-labels of a section

A scoped name has no dot, so what is put for a sub-label is no sub-label again, and every replacement leaves fewer
dots in the line.
-/

namespace Sysdarft.Coding

open Words Regex

/-! ## Scoped names -/

theorem scopedName_eq (upper sub : List Char) :
    scopedName upper sub = upper ++ sub.map fun c => if c = '.' then '_' else c := by
  rw [scopedName, replaceAll_eq, Text.replaceAll_singleton]
  congr 1
  induction sub with
  | nil => rfl
  | cons c sub ih =>
    rw [List.flatMap_cons, List.map_cons, ih]
    split_ifs <;> rfl

theorem dot_not_mem_scopedName {upper : List Char} (dotless : '.' ∉ upper) (sub : List Char) :
    '.' ∉ scopedName upper sub := by
  rw [scopedName_eq, List.mem_append, not_or]
  refine ⟨dotless, fun member => ?_⟩
  obtain ⟨c, -, same⟩ := List.mem_map.mp member
  split_ifs at same with dot
  · cases same
  · exact dot same

theorem isRun_scopedName {upper sub : List Char} (upper_run : IsRun isLabelChar upper) (sub_run : IsRun isLabelChar sub) :
    IsRun isLabelChar (scopedName upper sub) := by
  rw [scopedName_eq]
  refine upper_run.append fun c member => ?_
  obtain ⟨d, inside, rfl⟩ := List.mem_map.mp member
  split_ifs
  · rfl
  · exact sub_run d inside

/-- The upper label of a section, if there is one, is what is left of a label line without a dot. -/
theorem upperLabel_cases (file : List (List Char)) :
    upperLabel file = [] ∨ ∃ line ∈ file, isUpperLine line = true ∧ upperLabel file = labelOf line := by
  rw [upperLabel]
  cases found : file.reverse.find? isUpperLine with
  | none => exact .inl rfl
  | some line => exact .inr ⟨line, List.mem_reverse.mp (List.mem_of_find?_eq_some found), List.find?_some found, rfl⟩

theorem dot_not_mem_upperLabel (file : List (List Char)) : '.' ∉ upperLabel file := by
  rcases upperLabel_cases file with none | ⟨line, -, upper, same⟩
  · rw [none]
    exact List.not_mem_nil
  · rw [isUpperLine, Bool.and_eq_true, Bool.not_eq_true', ← Bool.not_eq_true, List.contains_iff_mem] at upper
    rw [same]
    exact upper.2

/-- A scoped name begins with nothing that a dollar sign could refer to. -/
theorem not_refers_scopedName {file section_ : List (List Char)} {sub : List Char} (member : sub ∈ subLabels section_) :
    ¬ Refers (afterDollars (scopedName (upperLabel file) sub)) := by
  have first : ∀ c ∈ (scopedName (upperLabel file) sub).head?, isLabelStart c = true ∨ Numerals.isSpace c = true := by
    obtain ⟨line, -, sub, rfl⟩ := exists_subLine member
    rw [isSubLine, Bool.and_eq_true] at sub
    intro c head
    rw [scopedName_eq] at head
    rcases upperLabel_cases file with none | ⟨upper_line, -, upper, same⟩
    · rw [none, List.nil_append, List.head?_map] at head
      obtain ⟨d, front, rfl⟩ := Option.map_eq_some_iff.mp head
      split_ifs
      · exact .inl rfl
      · exact head_labelOf sub.1 front
    · rw [isUpperLine, Bool.and_eq_true] at upper
      rw [same, List.head?_append_of_ne_nil _ (labelOf_ne_nil upper.1)] at head
      exact head_labelOf upper.1 head
  have plain : ∀ {c : Char}, isLabelStart c = true ∨ Numerals.isSpace c = true →
      c ≠ '$' ∧ c ≠ '&' ∧ c ≠ '\x60' ∧ c ≠ '\'' ∧ Numerals.isDecimal c = false := by
    intro c start
    refine ⟨?_, ?_, ?_, ?_, ?_⟩
    case refine_5 =>
      rcases start with start | blank
      · exact not_isDecimal_of_isLabelStart start
      · rcases isSpace_cases blank with rfl | rfl | rfl | rfl | rfl | rfl
        all_goals decide
    all_goals
      rintro rfl
      exact absurd start (by decide)
  rintro ⟨c, head, kind⟩
  cases name : scopedName (upperLabel file) sub with
  | nil =>
    rw [name] at head
    exact absurd head (Option.not_mem_none c)
  | cons d rest =>
    rw [name] at first head
    obtain ⟨dollar, all, before, behind, digit⟩ := plain (first d rfl)
    rw [afterDollars, List.dropWhile_cons_of_neg (by simpa using dollar)] at head
    obtain rfl := Option.some.inj head
    rcases kind with rfl | rfl | rfl | kind
    · exact all rfl
    · exact before rfl
    · exact behind rfl
    · rw [digit] at kind
      cases kind

/-! ## A line without sub-labels -/

/-- A text that no entry changes stays. -/
theorem replaceMarkers_of_stays {reading : TargetReading} {markers : OrderedMap (List Char) (List Char)} {text : List Char}
    (stays : ∀ entry ∈ markers.entries, replaceWholeWord reading text entry.1 entry.2 = .ok text) :
    replaceMarkers reading markers text = .ok text := by
  rw [replaceMarkers]
  generalize markers.entries = entries at stays
  induction entries with
  | nil => rfl
  | cons entry entries ih =>
    rw [List.foldlM_cons, stays entry List.mem_cons_self]
    exact ih fun other member => stays other (List.mem_cons_of_mem _ member)

theorem replaceMarkers_untouched {reading : TargetReading} {upper text : List Char} {section_ : List (List Char)}
    (absent : ∀ sub ∈ subLabels section_, sub ∉ runs isLabelChar text)
    (spaces : ∀ c ∈ text, Numerals.isSpace c = true → c = ' ') :
    replaceMarkers reading (sectionMarkers upper section_) text = .ok text := by
  refine replaceMarkers_of_stays fun entry member => ?_
  have known := (mem_sectionMarkers.mp member).1
  obtain ⟨dot, chars⟩ := subLabels_chars known
  by_cases run : IsRun isLabelChar entry.1
  · have none : (wordFronts entry.1 text).head? = none :=
      List.head?_eq_none_iff.mpr (fronts_eq_nil.mpr (absent entry.1 known))
    rw [replaceWholeWord_eq run (List.ne_nil_of_mem dot) (fun dollar => by rw [none] at dollar; cases dollar), none]
    rfl
  · refine replaceWholeWord_absent chars fun occurs => run fun c inside => ?_
    rcases chars c inside with label | blank
    · exact label
    · obtain ⟨line, -, -, same⟩ := exists_subLine known
      rw [← same] at inside occurs
      exact absurd (spaces c (occurs.subset inside) blank) (mem_labelOf.mp inside).2.1

/-! ## A line behind its first word -/

/-- What is known of a sub-label and its scoped name. -/
structure Scoped (entry : List Char × List Char) : Prop where
  key : IsRun isLabelChar entry.1
  dotted : '.' ∈ entry.1
  value : IsRun isLabelChar entry.2
  dotless : '.' ∉ entry.2
  plain : ¬ Refers (afterDollars entry.2)

section Head

variable {reading : TargetReading} {word rest : List Char}

/-- What is put for one sub-label in a line whose second and third characters behind the first word are a space and a
bracket. -/
theorem replaceWholeWord_head {entry : List Char × List Char} (sub : Scoped entry) (run : IsRun isLabelChar word)
    (away : '.' ∉ (split isLabelChar rest).1) :
    ∃ rest', replaceWholeWord reading (word ++ ' ' :: '<' :: rest) entry.1 entry.2 =
        .ok ((if word = entry.1 then entry.2 else word) ++ ' ' :: '<' :: rest') ∧
      '.' ∉ (split isLabelChar rest').1 ∧ (∀ c ∈ rest', c ∈ rest ∨ isLabelChar c = true) ∧
      (rest' = rest ∧ entry.1 ∉ runs isLabelChar rest ∨ rest'.count '.' < rest.count '.') := by
  have nonempty := List.ne_nil_of_mem sub.dotted
  have other : (split isLabelChar rest).1 ≠ entry.1 := fun same => away (same ▸ sub.dotted)
  have bracket : (split isLabelChar ('<' :: rest)).1 ≠ entry.1 := fun same => nonempty same.symm
  have put {out : List Char → List Char} : putWords isLabelChar entry.1 out (word ++ ' ' :: '<' :: rest) =
      (if word = entry.1 then out [] else word) ++ ' ' :: '<' :: putWords isLabelChar entry.1 out rest := by
    rw [putWords_run_cons run rfl bracket]
    have inner := @putWords_run_cons isLabelChar entry.1 out [] rest '<' (fun c member =>
      absurd member List.not_mem_nil) rfl other
    rw [if_neg nonempty.symm] at inner
    exact congrArg (fun tail => _ ++ ' ' :: tail) inner
  have front : fronts isLabelChar entry.1 (word ++ ' ' :: '<' :: rest) =
      (if word = entry.1 then [[]] else []) ++ fronts isLabelChar entry.1 rest := by
    rw [fronts_run_cons run rfl bracket]
    have inner := @fronts_run_cons isLabelChar entry.1 [] rest '<' (fun c member => absurd member List.not_mem_nil) rfl other
    rw [if_neg nonempty.symm] at inner
    exact congrArg _ inner
  set first := (wordFronts entry.1 (word ++ ' ' :: '<' :: rest)).headD [] with first_eq
  have short : first = [] ∨ ∃ c, isLabelChar c = false ∧ first = [c] := by
    rw [first_eq, List.headD_eq_head?_getD]
    cases head : (wordFronts entry.1 (word ++ ' ' :: '<' :: rest)).head? with
    | none => exact .inl rfl
    | some front => exact wordFronts_short (List.mem_of_mem_head? head)
  have dotless : '.' ∉ first ++ entry.2 := by
    rw [List.mem_append, not_or]
    refine ⟨?_, sub.dotless⟩
    rcases short with none | ⟨c, separates, single⟩
    · rw [none]
      exact List.not_mem_nil
    · rw [single, List.mem_singleton]
      rintro rfl
      cases separates
  have inside : ∀ c ∈ first, c ∈ rest := by
    intro c member
    rw [first_eq, wordFronts, front, List.headD_eq_head?_getD] at member
    split_ifs at member
    · exact absurd member List.not_mem_nil
    · rw [List.nil_append] at member
      cases head : (fronts isLabelChar entry.1 rest).head? with
      | none =>
        rw [head] at member
        exact absurd member List.not_mem_nil
      | some front =>
        rw [head] at member
        exact mem_fronts (List.mem_of_mem_head? head) member
  refine ⟨putWords isLabelChar entry.1 (fun _ => first ++ entry.2) rest, ?_, ?_, ?_, ?_⟩
  · rw [replaceWholeWord_plain sub.key nonempty sub.plain, ← first_eq, put]
    split_ifs with here
    · have none : first = [] := by
        rw [first_eq, wordFronts, front, if_pos here]
        rfl
      rw [none, List.nil_append]
    · rfl
  · refine split_putWords sub.dotted away fun _ later absent => ?_
    rcases short with none | ⟨c, separates, single⟩
    · rw [none, List.nil_append, split_run_append sub.value]
      exact fun member => (List.mem_append.mp member).elim sub.dotless absent
    · rw [single, List.singleton_append, List.cons_append, split_fst_eq_nil (by simpa using separates)]
      exact List.not_mem_nil
  · intro c member
    rcases mem_putWords member with kept | ⟨_, _, put⟩
    · exact .inl kept
    · rcases List.mem_append.mp put with early | late
      · exact .inl (inside c early)
      · exact .inr (sub.value c late)
  · by_cases none : fronts isLabelChar entry.1 rest = []
    · exact .inl ⟨putWords_none none, fronts_eq_nil.mp none⟩
    · have total := @count_putWords isLabelChar entry.1 (fun _ => first ++ entry.2) rest '.' fun _ _ => dotless
      have dots := List.count_pos_iff.mpr sub.dotted
      have some := List.length_pos_iff.mpr none
      have positive := Nat.mul_pos some dots
      exact .inr (by omega)

/-- What replacing some sub-labels leaves of such a line: the first word, or the name it stands for, and a rest that is as
before or has fewer dots. -/
theorem replaceEach_head {entries : List (List Char × List Char)} (subs : ∀ entry ∈ entries, Scoped entry)
    (run : IsRun isLabelChar word) (away : '.' ∉ (split isLabelChar rest).1) :
    ∃ word' rest', entries.foldlM (fun line entry => replaceWholeWord reading line entry.1 entry.2)
    (word ++ ' ' :: '<' :: rest) =
        .ok (word' ++ ' ' :: '<' :: rest') ∧
      ((∃ entry ∈ entries, entry.1 = word ∧ word' = entry.2) ∨ (∀ entry ∈ entries, entry.1 ≠ word) ∧ word' = word) ∧
      (∀ c ∈ rest', c ∈ rest ∨ isLabelChar c = true) ∧
      (rest' = rest ∧ (∀ entry ∈ entries, entry.1 ∉ runs isLabelChar rest) ∨ rest'.count '.' < rest.count '.') := by
  induction entries generalizing word rest with
  | nil =>
    refine ⟨word, rest, rfl, .inr ⟨?_, rfl⟩, fun c member => .inl member, .inl ⟨rfl, ?_⟩⟩
    · exact fun entry member => absurd member List.not_mem_nil
    · exact fun entry member => absurd member List.not_mem_nil
  | cons entry entries ih =>
    obtain ⟨sub, later⟩ := List.forall_mem_cons.mp subs
    obtain ⟨rest₁, first, away₁, chars₁, kind₁⟩ := @replaceWholeWord_head reading _ _ _ sub run away
    have run₁ : IsRun isLabelChar (if word = entry.1 then entry.2 else word) := by
      split_ifs
      · exact sub.value
      · exact run
    obtain ⟨word₂, rest₂, done, words, chars₂, kind₂⟩ := ih later run₁ away₁
    refine ⟨word₂, rest₂, ?_, ?_, ?_, ?_⟩
    · rw [List.foldlM_cons, first]
      exact done
    · split_ifs at words with here
      · rcases words with ⟨other, member, same, -⟩ | ⟨-, rfl⟩
        · exact absurd (same ▸ (later other member).dotted) sub.dotless
        · exact .inl ⟨entry, List.mem_cons_self, here.symm, rfl⟩
      · rcases words with ⟨other, member, same⟩ | ⟨none, rfl⟩
        · exact .inl ⟨other, List.mem_cons_of_mem _ member, same⟩
        · exact .inr ⟨List.forall_mem_cons.mpr ⟨fun same => here same.symm, none⟩, rfl⟩
    · intro c member
      rcases chars₂ c member with inside | label
      · exact chars₁ c inside
      · exact .inr label
    · rcases kind₁ with ⟨rfl, absent⟩ | fewer
      · rcases kind₂ with ⟨rfl, none⟩ | fewer
        · exact .inl ⟨rfl, List.forall_mem_cons.mpr ⟨absent, none⟩⟩
        · exact .inr fewer
      · rcases kind₂ with ⟨rfl, -⟩ | fewer'
        · exact .inr fewer
        · exact .inr (fewer'.trans fewer)

end Head

/-- The labels of a section are made of label characters only. -/
structure PlainLabels (upper : List Char) (section_ : List (List Char)) : Prop where
  upper : IsRun isLabelChar upper
  subs : ∀ sub ∈ subLabels section_, IsRun isLabelChar sub

theorem PlainLabels.entries {file section_ : List (List Char)} (plain : PlainLabels (upperLabel file) section_) :
    ∀ entry ∈ (sectionMarkers (upperLabel file) section_).entries, Scoped entry := by
  intro entry member
  obtain ⟨known, same⟩ := mem_sectionMarkers.mp member
  have run := plain.subs entry.1 known
  refine ⟨run, (subLabels_chars known).1, ?_, ?_, ?_⟩
  · rw [same]
    exact isRun_scopedName plain.upper run
  · rw [same]
    exact dot_not_mem_scopedName (dot_not_mem_upperLabel file) _
  · rw [same]
    exact not_refers_scopedName known

/-- What the sub-labels of a section leave of a line whose first word is followed by a space and a bracket. -/
theorem replaceMarkers_head {reading : TargetReading} {file section_ : List (List Char)} {word rest : List Char}
    (plain : PlainLabels (upperLabel file) section_) (run : IsRun isLabelChar word)
    (away : '.' ∉ (split isLabelChar rest).1) :
    ∃ rest', replaceMarkers reading (sectionMarkers (upperLabel file) section_) (word ++ ' ' :: '<' :: rest) =
        .ok ((if word ∈ subLabels section_ then scopedName (upperLabel file) word else word) ++ ' ' :: '<' :: rest') ∧
      (∀ c ∈ rest', c ∈ rest ∨ isLabelChar c = true) ∧
      (rest' = rest ∧ (∀ sub ∈ subLabels section_, sub ∉ runs isLabelChar rest) ∨ rest'.count '.' < rest.count '.') := by
  obtain ⟨word', rest', done, words, chars, kind⟩ := @replaceEach_head reading _ _ _ plain.entries run away
  have first : word' = if word ∈ subLabels section_ then scopedName (upperLabel file) word else word := by
    rcases words with ⟨entry, member, rfl, rfl⟩ | ⟨other, rfl⟩
    · obtain ⟨known, same⟩ := mem_sectionMarkers.mp member
      rw [if_pos known, same]
    · rw [if_neg]
      intro known
      exact other (word', scopedName (upperLabel file) word') (mem_sectionMarkers.mpr ⟨known, rfl⟩) rfl
  refine ⟨rest', ?_, chars, kind.imp_left fun ⟨same, absent⟩ => ⟨same, fun sub known => ?_⟩⟩
  · rw [← first]
    exact done
  · exact absent (sub, scopedName (upperLabel file) sub) (mem_sectionMarkers.mpr ⟨known, rfl⟩)


end Sysdarft.Coding
