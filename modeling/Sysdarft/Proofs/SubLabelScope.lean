import Sysdarft.Proofs.SubLabelText

/-! # Sub-labels and their sections

A sub-label stands for its upper label with the dots turned into underscores. It is replaced in every line of its
section, whether it is defined before or behind the line, and in no other. What stands in front of the first occurrence
is put in front of the others as well, so a line is rewritten word by word exactly when that makes no difference.
-/

namespace Sysdarft.Coding

open Regex Words

/-- The occurrences of a word have the same in front of them. -/
def Alike (target text : List Char) : Prop := ∀ front ∈ wordFronts target text, some front = (wordFronts target text).head?

/-- A run, or what the map has for it. -/
def substitute (entries : List (List Char × List Char)) (run : List Char) : List Char :=
  ((entries.find? fun entry => entry.1 = run).map Prod.snd).getD run

section Substitution

variable {reading : TargetReading} {entry : List Char × List Char} {entries : List (List Char × List Char)}
    {text result : List Char}

theorem substitute_absent {run : List Char} (absent : ∀ entry ∈ entries, entry.1 ≠ run) : substitute entries run = run := by
  rw [substitute, List.find?_eq_none.mpr fun entry member => by simpa using absent entry member]
  rfl

theorem substitute_cons (run : List Char) :
    substitute (entry :: entries) run = if run = entry.1 then entry.2 else substitute entries run := by
  rw [substitute, List.find?_cons]
  split_ifs with here
  · rw [here, decide_eq_true rfl]
    rfl
  · rw [decide_eq_false (Ne.symm here), substitute]

theorem isRun_substitute (subs : ∀ entry ∈ entries, Scoped entry) (run : List Char) (all : IsRun isLabelChar run) :
    IsRun isLabelChar (substitute entries run) := by
  rw [substitute]
  cases found : entries.find? fun entry => entry.1 = run with
  | none => exact all
  | some entry => exact (subs entry (List.mem_of_find?_eq_some found)).value

/-- A scoped name is no sub-label. -/
theorem Scoped.value_ne {other : List Char × List Char} (sub : Scoped entry) (sub' : Scoped other) : other.1 ≠ entry.2 :=
  fun same => sub.dotless (same ▸ sub'.dotted)

/-- What the first entry puts. -/
def putFirst (entry : List Char × List Char) (text : List Char) : List Char :=
  putWords isLabelChar entry.1 (fun _ => (wordFronts entry.1 text).headD [] ++ entry.2) text

theorem replaceWholeWord_putFirst (sub : Scoped entry) :
    replaceWholeWord reading text entry.1 entry.2 = .ok (putFirst entry text) :=
  replaceWholeWord_plain sub.key (List.ne_nil_of_mem sub.dotted) sub.plain text

theorem putFirst_pieces (sub : Scoped entry) :
    (split isLabelChar (putFirst entry text)).2.length ≤ (split isLabelChar text).2.length ∧
      ((split isLabelChar (putFirst entry text)).2.length = (split isLabelChar text).2.length →
        (∀ piece ∈ (split isLabelChar text).2, piece.2 = entry.1 → (wordFronts entry.1 text).headD [] ≠ []) ∧
        (split isLabelChar (putFirst entry text)).2 = (split isLabelChar text).2.map fun piece =>
          if piece.2 = entry.1 then (((wordFronts entry.1 text).headD []).headD piece.1, entry.2) else piece) := by
  refine pieces_putWords sub.value ?_ ?_
  · rw [List.headD_eq_head?_getD]
    cases head : (wordFronts entry.1 text).head? with
    | none => exact .inl rfl
    | some front => exact wordFronts_short (List.mem_of_mem_head? head)
  · intro visible start
    refine visible ?_
    rw [wordFronts, fronts, if_pos start]
    rfl

/-- What the entries leave as it is. -/
theorem replaceEach_pieces (subs : ∀ entry ∈ entries, Scoped entry)
    (done : entries.foldlM (fun line entry => replaceWholeWord reading line entry.1 entry.2) text = .ok result) :
    (split isLabelChar result).2.length ≤ (split isLabelChar text).2.length ∧
      ((split isLabelChar result).2.length = (split isLabelChar text).2.length → ∀ (index : ℕ) (piece : Char × List Char),
        (split isLabelChar text).2[index]? = some piece → (∀ entry ∈ entries, entry.1 ≠ piece.2) →
          (split isLabelChar result).2[index]? = some piece) := by
  induction entries generalizing text with
  | nil =>
    obtain rfl := Except.ok.inj done
    exact ⟨le_rfl, fun _ index piece known _ => known⟩
  | cons entry entries ih =>
    obtain ⟨sub, later⟩ := List.forall_mem_cons.mp subs
    rw [List.foldlM_cons, replaceWholeWord_putFirst sub] at done
    obtain ⟨shorter, keeps⟩ := ih later done
    obtain ⟨shorter', keeps'⟩ := @putFirst_pieces entry text sub
    refine ⟨shorter.trans shorter', fun same index piece known away => ?_⟩
    obtain ⟨here, others⟩ := List.forall_mem_cons.mp away
    refine keeps (by omega) index piece ?_ others
    rw [(keeps' (by omega)).2, List.getElem?_map, known, Option.map_some, if_neg (Ne.symm here)]

/-- An entry is put right when its occurrences have the same in front of them. -/
theorem putFirst_eq (alike : Alike entry.1 text) : putFirst entry text = replacedWords entry.1 entry.2 text := by
  rw [putFirst, List.headD_eq_head?_getD]
  cases head : (wordFronts entry.1 text).head? with
  | none =>
    have none := List.head?_eq_none_iff.mp head
    rw [putWords_none none, replacedWords_none none]
  | some first =>
    refine (putWords_constant (fun _ => rfl) head).mpr fun front member => ?_
    exact Option.some.inj ((alike front member).trans head)

/-- What the other entries are replaced in is the same. -/
theorem wordFronts_replacedWords {other : List Char × List Char} (sub : Scoped entry) (sub' : Scoped other)
    (differs : other.1 ≠ entry.1) :
    wordFronts other.1 (replacedWords entry.1 entry.2 text) = wordFronts other.1 text := by
  refine fronts_mapRuns (fun run all => ?_) fun run member => ?_
  · split_ifs
    · exact sub.value
    · exact all
  · split_ifs with here
    · rw [here]
      exact iff_of_false (Ne.symm (sub.value_ne sub')) (Ne.symm differs)
    · exact Iff.rfl

theorem mapRuns_substitute_cons (sub : Scoped entry) (subs : ∀ entry ∈ entries, Scoped entry) :
    mapRuns isLabelChar (substitute entries) (replacedWords entry.1 entry.2 text) =
      mapRuns isLabelChar (substitute (entry :: entries)) text := by
  rw [replacedWords, mapRuns_mapRuns]
  · refine mapRuns_congr fun run member => ?_
    rw [substitute_cons]
    split_ifs with here
    · exact substitute_absent fun other known => sub.value_ne (subs other known)
    · rfl
  · intro run all
    split_ifs
    · exact sub.value
    · exact all

/-- A wrong front is there to stay. -/
theorem putFirst_wrong (sub : Scoped entry) (subs : ∀ entry ∈ entries, Scoped entry)
    (done : entries.foldlM (fun line entry => replaceWholeWord reading line entry.1 entry.2) (putFirst entry text) =
      .ok result)
    (right : result = mapRuns isLabelChar (substitute (entry :: entries)) text) : Alike entry.1 text := by
  obtain ⟨shorter, keeps⟩ := replaceEach_pieces subs done
  obtain ⟨shorter', keeps'⟩ := @putFirst_pieces entry text sub
  have pieces := congrArg Prod.snd (@split_mapRuns isLabelChar (substitute (entry :: entries)) text
    (isRun_substitute (List.forall_mem_cons.mpr ⟨sub, subs⟩)))
  rw [← right] at pieces
  have length := congrArg List.length pieces
  rw [List.length_map] at length
  obtain ⟨visible, put⟩ := keeps' (by omega)
  have kept := keeps (by omega)
  -- the front that is put is that of every occurrence behind a separator
  have each : ∀ piece ∈ (split isLabelChar text).2, piece.2 = entry.1 →
    ((wordFronts entry.1 text).headD []).headD piece.1 = piece.1 := by
    intro piece member here
    obtain ⟨index, known⟩ := List.mem_iff_getElem?.mp member
    have middle := congrArg (fun pieces => pieces[index]?) put
    have final := congrArg (fun pieces => pieces[index]?) pieces
    simp only [List.getElem?_map, known, Option.map_some, if_pos here] at middle final
    rw [kept index _ middle fun other known => sub.value_ne (subs other known)] at final
    exact (Prod.mk.inj (Option.some.inj final)).1
  rw [Alike, wordFronts, forall_fronts]
  constructor
  · intro start
    rw [fronts, if_pos start]
    rfl
  · intro piece member here
    have nonempty := visible piece member here
    have same := each piece member here
    cases head : (wordFronts entry.1 text).head? with
    | none =>
      rw [List.headD_eq_head?_getD, head] at nonempty
      exact absurd rfl nonempty
    | some first =>
      have front : (wordFronts entry.1 text).headD [] = first := by
        rw [List.headD_eq_head?_getD, head]
        rfl
      rw [front] at nonempty same
      rcases wordFronts_short (List.mem_of_mem_head? head) with rfl | ⟨c, -, rfl⟩
      · exact absurd rfl nonempty
      · exact congrArg (fun c => some [c]) same.symm

/-- Every sub-label is replaced, word by word, exactly when the occurrences of each have the same in front of them. -/
theorem replaceEach_iff (subs : ∀ entry ∈ entries, Scoped entry) (keys : (entries.map Prod.fst).Nodup) (text : List Char) :
    ∃ result, entries.foldlM (fun line entry => replaceWholeWord reading line entry.1 entry.2) text = .ok result ∧
      (result = mapRuns isLabelChar (substitute entries) text ↔ ∀ entry ∈ entries, Alike entry.1 text) := by
  induction entries generalizing text with
  | nil =>
    refine ⟨text, rfl, iff_of_true ?_ fun entry member => absurd member List.not_mem_nil⟩
    exact (mapRuns_id text).symm
  | cons entry entries ih =>
    obtain ⟨sub, later⟩ := List.forall_mem_cons.mp subs
    obtain ⟨absent, others⟩ := List.nodup_cons.mp keys
    obtain ⟨result, done, exact_⟩ := ih later others (putFirst entry text)
    refine ⟨result, ?_, ?_⟩
    · rw [List.foldlM_cons, replaceWholeWord_putFirst sub]
      exact done
    · rw [List.forall_mem_cons]
      constructor
      · intro right
        have alike := putFirst_wrong sub later done right
        rw [putFirst_eq alike, mapRuns_substitute_cons sub later] at exact_
        refine ⟨alike, fun other known => ?_⟩
        have inner := exact_.mp right other known
        rwa [Alike, wordFronts_replacedWords sub (later other known) fun same =>
          absent (same ▸ List.mem_map_of_mem known)] at inner
      · rintro ⟨alike, all⟩
        rw [putFirst_eq alike, mapRuns_substitute_cons sub later] at exact_
        refine exact_.mpr fun other known => ?_
        rw [Alike, wordFronts_replacedWords sub (later other known) fun same => absent (same ▸ List.mem_map_of_mem known)]
        exact all other known

end Substitution

/-! ## The lines of a file -/

/-- A word of a section: a sub-label stands for its scoped name. -/
def scopeRun (upper : List Char) (section_ : List (List Char)) (run : List Char) : List Char :=
  if (subLabels section_).contains run then scopedName upper run else run

/-- The name that a label line defines behind other lines. -/
def NamesLabel (before : List (List Char)) (line name : List Char) : Prop :=
  isUpperLine line = true ∧ name = labelOf line ∨ isSubLine line = true ∧
    name = scopedName (upperLabel before) (labelOf line)

/-- Around the labels there are spaces and tabs, and no other white space. -/
def PlainFile (file : List (List Char)) : Prop :=
  ∀ line ∈ file, lineMatches lineMarkPattern line = true → IsRun isLabelChar (labelOf line)

section Files

variable {reading : TargetReading} {file file' names before after : List (List Char)} {line : List Char}
    {state state' : SectionState}

theorem substitute_sectionMarkers (upper : List Char) (section_ : List (List Char)) :
    substitute (sectionMarkers upper section_).entries = scopeRun upper section_ := by
  funext run
  simp only [substitute, scopeRun, List.contains_iff_mem]
  split_ifs with known
  · have member : (run, scopedName upper run) ∈ (sectionMarkers upper section_).entries :=
      mem_sectionMarkers.mpr ⟨known, rfl⟩
    have present : ((sectionMarkers upper section_).entries.find? fun entry => entry.1 = run).isSome :=
      List.find?_isSome.mpr ⟨_, member, decide_eq_true rfl⟩
    obtain ⟨entry, found⟩ := Option.isSome_iff_exists.mp present
    obtain rfl : entry.1 = run := by simpa using List.find?_some found
    rw [found]
    exact (mem_sectionMarkers.mp (List.mem_of_find?_eq_some found)).2
  · rw [List.find?_eq_none.mpr]
    · rfl
    · intro entry member
      have other : entry.1 ≠ run := fun same => known (same ▸ (mem_sectionMarkers.mp member).1)
      simpa using other

/-- A line is rewritten word by word, or not. -/
theorem replaceMarkers_iff {section_ : List (List Char)} (plain : PlainLabels (upperLabel file) section_)
    (line : List Char) :
    ∃ line', replaceMarkers reading (sectionMarkers (upperLabel file) section_) line = .ok line' ∧
      (line' = mapRuns isLabelChar (scopeRun (upperLabel file) section_) line ↔
        ∀ sub ∈ subLabels section_, Alike sub line) := by
  have keys := (sectionMarkers (upperLabel file) section_).sorted.imp fun less => ne_of_lt less
  obtain ⟨line', done, right⟩ := @replaceEach_iff reading _ plain.entries keys line
  refine ⟨line', done, ?_⟩
  rw [← substitute_sectionMarkers, right]
  constructor
  · exact fun all sub known => all (sub, scopedName (upperLabel file) sub) (mem_sectionMarkers.mpr ⟨known, rfl⟩)
  · exact fun all entry member => all entry.1 (mem_sectionMarkers.mp member).1

theorem mem_takeWhile {p : List Char → Bool} (member : line ∈ file.takeWhile p) : line ∈ file :=
  (List.takeWhile_prefix p).subset member

theorem PlainFile.section (plain : PlainFile (before ++ line :: after)) :
    PlainLabels (upperLabel before) (sectionOf before line after) := by
  constructor
  · rcases upperLabel_cases before with none | ⟨other, member, kind, same⟩
    · rw [none]
      exact fun c member => absurd member List.not_mem_nil
    · rw [isUpperLine, Bool.and_eq_true] at kind
      rw [same]
      exact plain other (List.mem_append_left _ member) kind.1
  · intro sub known
    obtain ⟨other, member, kind, rfl⟩ := exists_subLine known
    rw [isSubLine, Bool.and_eq_true] at kind
    refine plain other ?_ kind.1
    rcases List.mem_append.mp member with early | late
    · exact List.mem_append_left _ (List.mem_reverse.mp (mem_takeWhile (List.mem_reverse.mp early)))
    · rcases List.mem_cons.mp late with rfl | late
      · exact List.mem_append_right _ List.mem_cons_self
      · exact List.mem_append_right _ (List.mem_cons_of_mem _ (mem_takeWhile late))

/-- A text without a dot has nothing in it to rewrite. -/
theorem replaceMarkers_dotless {section_ : List (List Char)} {upper text : List Char} (dotless : '.' ∉ text) :
    replaceMarkers reading (sectionMarkers upper section_) text = .ok text := by
  refine replaceMarkers_of_stays fun entry member => ?_
  obtain ⟨dot, chars⟩ := subLabels_chars (mem_sectionMarkers.mp member).1
  exact replaceWholeWord_absent chars fun occurs => dotless (occurs.subset dot)

/-- A sub-label is defined in its place under its scoped name. -/
theorem lineMarkerRegister_sub (sub : isSubLine line = true)
    (done : lineMarkerRegister reading (before ++ line :: after) = .ok (file', names)) :
    file'[before.length]? = some (scopedName (upperLabel before) (labelOf line) ++ [':']) := by
  obtain ⟨line', place, rewritten⟩ := lineMarkerRegister_line (isUpperLine_of_isSubLine sub) done
  have dotless := dot_not_mem_scopedName (dot_not_mem_upperLabel before) (labelOf line)
  rw [pendingLine, if_pos sub, replaceMarkers_dotless (by simpa using dotless)] at rewritten
  rw [place, ← Except.ok.inj rewritten]

/-- An upper label stays where it is, and is rewritten with the section that it ends. -/
theorem lineMarkerRegister_upper (upper : isUpperLine line = true)
    (done : lineMarkerRegister reading (before ++ line :: after) = .ok (file', names)) :
    ∃ line', file'[before.length]? = some line' ∧
      replaceMarkers reading (sectionMarkers (upperLabel before) (openSection before))
      (labelOf line ++ [':']) = .ok line' := by
  obtain ⟨state, run, done⟩ := Effects.except_bind_eq_ok.mp done
  obtain ⟨section_, closed, same⟩ := Effects.except_bind_eq_ok.mp done
  obtain ⟨rfl, rfl⟩ := Prod.mk.inj (Except.ok.inj same)
  rw [List.foldlM_append] at run
  obtain ⟨first, early, run⟩ := Effects.except_bind_eq_ok.mp run
  rw [List.foldlM_cons] at run
  obtain ⟨second, turn, late⟩ := Effects.except_bind_eq_ok.mp run
  have start := registered_run registered_empty early
  rw [List.nil_append] at start
  cases registerLine_registers turn with
  | sub sub => rw [isUpperLine_of_isSubLine sub] at upper; cases upper
  | plain marked => rw [isUpperLine, marked] at upper; cases upper
  | @upper ended _ _ rewritten =>
    obtain ⟨front, line', rest, rfl, buffered, here⟩ := Effects.except_mapM_split rewritten
    have lengths := (Effects.except_mapM_eq_ok.mp buffered).length_eq
    have total := start.lengths
    obtain ⟨more, grown⟩ := processed_prefix late
    rw [start.markers, replaceFoundMarkers_eq] at here
    refine ⟨line', ?_, here⟩
    rw [← grown, List.append_assoc, List.append_assoc, List.flatten_append, List.getElem?_append_right (by omega),
      List.singleton_append,
      List.flatten_cons, List.append_assoc, List.getElem?_append_right (by omega),
      show before.length - first.processed_file_sections.flatten.length - front.length = 0 by omega]
    rfl

/-- The names are those of the label lines. -/
theorem mem_result {name : List Char} (run : file.foldlM (registerLine reading) ⟨[], [], .empty, [], []⟩ = .ok state) :
    name ∈ state.result ↔ ∃ before line after, file = before ++ line :: after ∧ NamesLabel before line name := by
  induction file using List.reverseRecOn generalizing state with
  | nil =>
    obtain rfl := Except.ok.inj run
    refine iff_of_false List.not_mem_nil ?_
    rintro ⟨before, line, after, empty, -⟩
    exact List.append_ne_nil_of_right_ne_nil _ (List.cons_ne_nil _ _) empty.symm
  | append_singleton file last ih =>
    rw [List.foldlM_append] at run
    obtain ⟨first, early, run⟩ := Effects.except_bind_eq_ok.mp run
    rw [List.foldlM_cons] at run
    obtain ⟨second, turn, same⟩ := Effects.except_bind_eq_ok.mp run
    obtain rfl := Except.ok.inj same
    have start := registered_run registered_empty early
    rw [List.nil_append] at start
    have grown : name ∈ second.result ↔ name ∈ first.result ∨ NamesLabel file last name := by
      rw [NamesLabel]
      cases registerLine_registers turn with
      | sub sub new => simp [isUpperLine_of_isSubLine sub, sub, start.upper]
      | upper upper new rewritten => simp [isSubLine_of_isUpperLine upper, upper]
      | plain marked => simp [isUpperLine, isSubLine, marked]
    rw [grown, ih early]
    constructor
    · rintro (⟨before, line, after, rfl, named⟩ | named)
      · exact ⟨before, line, after ++ [last], by rw [List.append_assoc, List.cons_append], named⟩
      · exact ⟨file, last, [], rfl, named⟩
    · rintro ⟨before, line, after, whole, named⟩
      rcases List.eq_nil_or_concat after with rfl | ⟨after, other, rfl⟩
      · obtain ⟨rfl, single⟩ := List.append_inj' whole rfl
        obtain rfl := List.singleton_inj.mp single
        exact .inr named
      · rw [List.concat_eq_append, ← List.cons_append, ← List.append_assoc] at whole
        obtain ⟨rfl, -⟩ := List.append_inj' whole rfl
        exact .inl ⟨before, line, after, rfl, named⟩

/-- What is made of the lines of a file. -/
structure Scopes (file file' names : List (List Char)) : Prop where
  lengths : file'.length = file.length
  distinct : names.Nodup
  /-- The names are those of the label lines. -/
  names : ∀ name, name ∈ names ↔ ∃ before line after, file = before ++ line :: after ∧ NamesLabel before line name
  /-- A label line is a definition of its name. -/
  labels : ∀ before line after name, file = before ++ line :: after → NamesLabel before line name →
    file'[before.length]? = some (name ++ [':'])
  /-- Any other line is rewritten word by word with the sub-labels of its section, or not. -/
  lines : ∀ before line after, file = before ++ line :: after → lineMatches lineMarkPattern line = false →
    (file'[before.length]? = some (mapRuns isLabelChar (scopeRun (upperLabel before) (sectionOf before line after)) line) ↔
      ∀ sub ∈ subLabels (sectionOf before line after), Alike sub line)

theorem lineMarkerRegister_scopes (plain : PlainFile file) (done : lineMarkerRegister reading file = .ok (file', names)) :
    Scopes file file' names := by
  obtain ⟨state, run, finish⟩ := Effects.except_bind_eq_ok.mp done
  obtain ⟨section_, -, same⟩ := Effects.except_bind_eq_ok.mp finish
  obtain ⟨-, names_eq⟩ := Prod.mk.inj (Except.ok.inj same)
  have registered := registered_run registered_empty run
  rw [List.nil_append] at registered
  refine ⟨lineMarkerRegister_length done, names_eq ▸ registered.distinct, fun name => names_eq ▸ mem_result run, ?_, ?_⟩
  · rintro before line after name rfl named
    rcases named with ⟨upper, rfl⟩ | ⟨sub, rfl⟩
    · obtain ⟨line', place, rewritten⟩ := lineMarkerRegister_upper upper done
      rw [isUpperLine, Bool.and_eq_true, Bool.not_eq_true', ← Bool.not_eq_true, List.contains_iff_mem] at upper
      rw [replaceMarkers_dotless (by simpa using upper.2)] at rewritten
      rw [place, ← Except.ok.inj rewritten]
    · exact lineMarkerRegister_sub sub done
  · rintro before line after rfl marked
    have other : isUpperLine line = false := by rw [isUpperLine, marked, Bool.false_and]
    have plain_ : pendingLine (upperLabel before) line = line := by
      rw [pendingLine, isSubLine, marked, Bool.false_and, if_neg Bool.false_ne_true]
    obtain ⟨line', place, rewritten⟩ := lineMarkerRegister_line other done
    obtain ⟨line'', again, right⟩ := @replaceMarkers_iff reading _ _ plain.section line
    rw [plain_] at rewritten
    obtain rfl := Except.ok.inj (again.symm.trans rewritten)
    rw [place, Option.some.injEq]
    exact right

end Files

/-- A loop, with the jump back. -/
def loopFile : List (List Char) := ["foo:".toList, ".loop:".toList, "JMP <%CB>, <.loop>".toList]

instance plainFileDecidable (file : List (List Char)) : Decidable (PlainFile file) :=
  inferInstanceAs (Decidable (∀ line ∈ file, lineMatches lineMarkPattern line = true → IsRun isLabelChar (labelOf line)))

theorem lineMarkerRegister_scopes_loop :
    Scopes loopFile ["foo:".toList, "foo_loop:".toList, "JMP <%CB>, <foo_loop>".toList] ["foo".toList, "foo_loop".toList] :=
  @lineMarkerRegister_scopes (fun _ => none) loopFile _ _ (by decide) rfl

end Sysdarft.Coding
