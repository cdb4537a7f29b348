import Sysdarft.Coding.MainCompile
import Sysdarft.Proofs.GuardedHeaders

/-! # Include guards

A header is read when the `%include` line is scanned and processed when the including file gets to that line, with the
definitions of that time. Each nested call either finds the guard of the header defined, and then nothing is left of it,
or defines the guard. So the number of guards that are not defined bounds the depth of the calls, whatever the headers
include, and each header that is reached is processed once.
-/

namespace Sysdarft.Coding

open Regex

/-! ## The run -/

section Run

variable (env : Environment)

/-- `HeadProcess` of a source file, and `PreProcess` of what it leaves. -/
def processSource (fuel : ℕ) (source : List (List Char)) (tables : Tables) : Nested (List (List Char) × Tables) := do
  let (file, definition, headers) ←
    Nested.ofExcept (headProcess env.files env.include_path source tables.definition [])
  preProcess env fuel file headers { tables with definition }

section Visits

variable (nested : List (List Char) → List IncludeFile → Tables → Nested (List (List Char) × Tables))
  (visits : List (List Char) → List IncludeFile → Tables → List (List Char))

/-- The headers whose bodies are processed for a header, itself included when `HeadProcess` leaves something of it. -/
def headerVisits (header : IncludeFile) (tables : Tables) : List (List Char) :=
  match headProcess env.files env.include_path header.content tables.definition [] with
  | .error _ => []
  | .ok (file, definition, headers) =>
    (if file.all isLineEmpty then [] else [header.file_name]) ++ visits file headers { tables with definition }

/-- The headers whose bodies are processed in the loop over the directives, from a line number on. -/
def lineVisits (headers : List IncludeFile) : ℕ → List (List Char) → Tables → List (List Char)
  | _, [], _ => []
  | line_number, line :: rest, tables =>
    (((headerInThisLine headers line_number).map fun header => headerVisits env visits header tables).getD []) ++
      match (processHeaders env nested headers line_number tables).run with
      | some (.ok tables) =>
        let line := truncateAfterSemicolonOrHash line
        if isLineEmpty line then lineVisits headers (line_number + 1) rest tables
        else
          match declare line tables with
          | some tables => lineVisits headers (line_number + 1) rest tables
          | none => []
      | _ => []

end Visits

/-- The headers whose bodies are processed by a call of `PreProcess`, in order. -/
def preProcessVisits : ℕ → List (List Char) → List IncludeFile → Tables → List (List Char)
  | 0, _, _, _ => []
  | fuel + 1, file, headers, tables =>
    match lineMarkerRegister env.reading (file.map cleanText) with
    | .error _ => []
    | .ok (file, markers) =>
      lineVisits env (preProcess env fuel) (preProcessVisits fuel) headers 1 file
        { tables with defined_line_marker := markers.foldl declareMarker tables.defined_line_marker }

/-- The headers whose bodies are processed for a source file. -/
def sourceVisits (fuel : ℕ) (source : List (List Char)) (tables : Tables) : List (List Char) :=
  match headProcess env.files env.include_path source tables.definition [] with
  | .error _ => []
  | .ok (file, definition, headers) => preProcessVisits env fuel file headers { tables with definition }

end Run

/-! ## Tables that grow -/

/-- Nothing that is known is lost. -/
structure Grows (tables tables' : Tables) : Prop where
  definition : ∀ name, tables.definition.contains name = true → tables'.definition.contains name = true
  keys : ∀ key, tables.equ_replacement.contains key = true → tables'.equ_replacement.contains key = true
  symbols : ∀ name, isLineMarkerPresent tables.defined_line_marker name = true →
    isLineMarkerPresent tables'.defined_line_marker name = true

theorem Grows.refl (tables : Tables) : Grows tables tables := ⟨fun _ => id, fun _ => id, fun _ => id⟩

theorem Grows.trans {tables middle tables' : Tables} (first : Grows tables middle) (second : Grows middle tables') :
    Grows tables tables' :=
  ⟨fun name known => second.definition name (first.definition name known),
    fun key known => second.keys key (first.keys key known),
    fun name known => second.symbols name (first.symbols name known)⟩

/-- What is not defined later was not defined before. -/
theorem new_of_grows {definition definition' : Definitions} {name : List Char}
    (grows : ∀ name, definition.contains name = true → definition'.contains name = true)
    (new : definition'.contains name = false) : definition.contains name = false := by
  by_contra known
  rw [grows name ((Bool.not_eq_false _).mp known)] at new
  cases new

/-- Any directive adds to the tables, and defines nothing. -/
theorem declare_grows {line : List Char} {tables tables' : Tables} (done : declare line tables = some tables') :
    Grows tables tables' ∧ tables'.definition = tables.definition := by
  rw [declare] at done
  split_ifs at done
  · cases done
    exact ⟨⟨fun _ => id, fun _ => id, fun _ => id⟩, rfl⟩
  · cases done
    refine ⟨⟨fun _ => id, fun _ => id, fun name known => ?_⟩, rfl⟩
    dsimp only
    rw [processLab]
    split
    · exact isLineMarkerPresent_foldl.mpr (.inr known)
    · exact known
  · cases done
    refine ⟨⟨fun _ => id, fun key known => ?_, fun _ => id⟩, rfl⟩
    dsimp only
    rw [processEqu]
    split
    · rw [OrderedMap.contains_emplace, known, Bool.or_true]
    · exact known

section Processing

variable {files : FileSystem} (library : HeaderLibrary files)

/-- The tables have what a header declares, and the guards of what it includes. -/
def Complete (header : GuardedHeader) (tables : Tables) : Prop :=
  ∀ line ∈ header.lines, (∀ key ∈ line.keys, tables.equ_replacement.contains key = true) ∧
    (∀ name ∈ line.symbols, isLineMarkerPresent tables.defined_line_marker name = true) ∧
      ∀ path ∈ line.includes, ∀ other ∈ library.headers, other.path = path → tables.definition.contains other.guard = true

/-- Some headers are processed, each once: those whose guards were not defined and are now, and all they declare and
include is in the tables. -/
structure Processes (tables tables' : Tables) (visited : List (List Char)) : Prop where
  grows : Grows tables tables'
  once : visited.Nodup
  known : ∀ path ∈ visited, ∃ header ∈ library.headers, header.path = path
  visited_iff : ∀ header ∈ library.headers, header.path ∈ visited ↔
    tables.definition.contains header.guard = false ∧ tables'.definition.contains header.guard = true
  complete : ∀ header ∈ library.headers, tables.definition.contains header.guard = false →
    tables'.definition.contains header.guard = true → Complete library header tables'

variable {library} {tables middle tables' : Tables}

theorem Complete.grows {header : GuardedHeader} (complete : Complete library header middle) (grows : Grows middle tables') :
    Complete library header tables' := by
  intro line inside
  obtain ⟨keys, symbols, includes⟩ := complete line inside
  exact ⟨fun key member => grows.keys key (keys key member), fun name member => grows.symbols name (symbols name member),
    fun path included other member same => grows.definition _ (includes path included other member same)⟩

/-- Steps that define nothing process no header. -/
theorem Grows.processes (grows : Grows tables tables') (same : tables'.definition = tables.definition) :
    Processes library tables tables' [] := by
  have never {name : List Char} (new : tables.definition.contains name = false) :
      ¬ tables'.definition.contains name = true := by
    rw [same, new]
    exact Bool.false_ne_true
  exact ⟨grows, List.nodup_nil, by simp, fun header _ => by simpa using fun new => never new,
    fun header _ new defined => (never new defined).elim⟩

theorem Processes.trans {visited visited' : List (List Char)} (first : Processes library tables middle visited)
    (second : Processes library middle tables' visited') : Processes library tables tables' (visited ++ visited') := by
  refine ⟨first.grows.trans second.grows, ?_, fun path member => ?_, fun header member => ?_,
    fun header member new defined => ?_⟩
  · refine List.nodup_append.mpr ⟨first.once, second.once, fun path early path' late => ?_⟩
    rintro rfl
    obtain ⟨header, member, rfl⟩ := first.known path early
    have defined := ((first.visited_iff header member).mp early).2
    rw [((second.visited_iff header member).mp late).1] at defined
    cases defined
  · rcases List.mem_append.mp member with early | late
    · exact first.known path early
    · exact second.known path late
  · rw [List.mem_append, first.visited_iff header member, second.visited_iff header member]
    constructor
    · rintro (⟨new, defined⟩ | ⟨new, defined⟩)
      · exact ⟨new, second.grows.definition _ defined⟩
      · exact ⟨new_of_grows first.grows.definition new, defined⟩
    · rintro ⟨new, defined⟩
      cases between : OrderedMap.contains middle.definition header.guard with
      | true => exact .inl ⟨new, rfl⟩
      | false => exact .inr ⟨rfl, defined⟩
  · cases between : OrderedMap.contains middle.definition header.guard with
    | true => exact (first.complete header member new between).grows second.grows
    | false => exact second.complete header member between defined

/-- A header that defines its guard, and then processes what it includes. -/
theorem HeaderLibrary.processes_cons {header : GuardedHeader} {visited : List (List Char)} {definition : Definitions}
    (member : header ∈ library.headers) (new : tables.definition.contains header.guard = false)
    (defined : ∀ name, definition.contains name = true ↔
      (∃ line ∈ header.lines, name ∈ line.definitions) ∨ tables.definition.contains name = true)
    (behind : Processes library { tables with definition } tables' visited) (complete : Complete library header tables') :
    Processes library tables tables' (header.path :: visited) := by
  have guarded : definition.contains header.guard = true :=
    (defined _).mpr (.inl ⟨_, List.mem_cons_self, List.mem_singleton_self _⟩)
  have others {other : GuardedHeader} (inside : other ∈ library.headers) (differs : other ≠ header) :
      definition.contains other.guard = tables.definition.contains other.guard := by
    rw [Bool.eq_iff_iff, defined]
    refine or_iff_right ?_
    rintro ⟨line, inside_lines, named⟩
    rcases List.mem_cons.mp inside_lines with rfl | body
    · exact differs (List.inj_on_of_nodup_map library.guards inside member (List.mem_singleton.mp named))
    · exact library.unguarded header member line body other inside named
  have start : Grows tables { tables with definition } :=
    ⟨fun name known => (defined name).mpr (.inr known), fun _ => id, fun _ => id⟩
  refine ⟨start.trans behind.grows, List.nodup_cons.mpr ⟨fun again => ?_, behind.once⟩, fun path inside => ?_,
    fun other inside => ?_, fun other inside new' now => ?_⟩
  · have fresh := ((behind.visited_iff header member).mp again).1
    rw [guarded] at fresh
    cases fresh
  · rcases List.mem_cons.mp inside with rfl | later
    · exact ⟨header, member, rfl⟩
    · exact behind.known path later
  · rw [List.mem_cons, behind.visited_iff other inside]
    by_cases same : other = header
    · subst same
      exact iff_of_true (.inl rfl) ⟨new, behind.grows.definition _ guarded⟩
    · rw [or_iff_right fun paths => same (List.inj_on_of_nodup_map library.paths inside member paths)]
      exact and_congr_left fun _ => by rw [others inside same]
  · by_cases same : other = header
    · exact same ▸ complete
    · exact behind.complete other inside ((others inside same).trans new') now

/-! The guards that are not defined yet. -/

variable (library) in
/-- The number of guards that are not defined. -/
def openGuards (definition : Definitions) : ℕ := library.headers.countP fun header => !definition.contains header.guard

/-- Among any headers, fewer guards are not defined later. -/
theorem countP_guards_le {definition definition' : Definitions}
    (grows : ∀ name, definition.contains name = true → definition'.contains name = true) (headers : List GuardedHeader) :
    headers.countP (fun header => !definition'.contains header.guard) ≤
      headers.countP fun header => !definition.contains header.guard := by
  refine List.countP_mono_left fun header _ new => ?_
  rw [Bool.not_eq_true'] at new ⊢
  exact new_of_grows grows new

theorem openGuards_le {definition definition' : Definitions}
    (grows : ∀ name, definition.contains name = true → definition'.contains name = true) :
    openGuards library definition' ≤ openGuards library definition :=
  countP_guards_le grows library.headers

theorem openGuards_lt {definition definition' : Definitions} {header : GuardedHeader} (member : header ∈ library.headers)
    (grows : ∀ name, definition.contains name = true → definition'.contains name = true)
    (new : definition.contains header.guard = false) (defined : definition'.contains header.guard = true) :
    openGuards library definition' < openGuards library definition := by
  obtain ⟨before, after, split⟩ := List.append_of_mem member
  have first := countP_guards_le grows before
  have last := countP_guards_le grows after
  simp only [openGuards, split, List.countP_append, List.countP_cons, new, defined]
  simp only [Bool.not_true, Bool.not_false, Bool.false_eq_true, ↓reduceIte]
  omega

end Processing

/-! ## Replacements that do not throw -/

/-- A text that `std::regex` reads as it stands, once the special characters are escaped. -/
def Unbracketed (text : List Char) : Prop := ∀ c ∈ text, c ∉ "[]{}".toList

theorem replaceWholeWord_unbracketed {target : List Char} (plain : Unbracketed target) (reading : TargetReading)
    (text replacement : List Char) : ∃ out, replaceWholeWord reading text target replacement = .ok out := by
  have read : targetRegex reading target = some (lit target) := by
    rw [targetRegex, if_pos]
    rw [List.all_eq_true]
    intro c member
    rw [Bool.not_eq_true', ← Bool.not_eq_true, List.contains_iff_mem]
    exact plain c member
  rw [replaceWholeWord, read]
  dsimp only
  cases hit : searchAhead (wholeWord isLabelChar (lit target)) (boundary isLabelChar) text with
  | none => exact ⟨_, rfl⟩
  | some found =>
    obtain ⟨front, short, whole⟩ := searchAhead_wholeWord_front hit
    have left := Text.length_replaceAll_le (List.suffix_append front target).isInfix
    rw [List.length_append, ← replaceAll_eq, ← whole] at left
    dsimp only
    rcases same : replaceAll found.text target [] with _ | ⟨_, _ | ⟨_, _ | _⟩⟩
    · exact ⟨_, rfl⟩
    · exact ⟨_, rfl⟩
    · exact ⟨_, rfl⟩
    · rw [same] at left
      simp only [List.length_cons] at left
      omega

/-- Every key of the table is such a text. -/
def PlainKeys (equ_replacement : OrderedMap (List Char) (List Char)) : Prop :=
  ∀ key, equ_replacement.contains key = true → Unbracketed key

theorem sedEqu_plain {env : Environment} (simple : env.regex = false) {equ_replacement : OrderedMap (List Char) (List Char)}
    (plain : PlainKeys equ_replacement) (input : List Char) : ∃ out, sedEqu env equ_replacement input = .ok out := by
  have keys : ∀ entry ∈ equ_replacement.entries, Unbracketed entry.1 := by
    intro entry member
    refine plain entry.1 ?_
    rw [OrderedMap.contains, OrderedMap.mem_entries_iff.mp member]
    rfl
  rw [sedEqu, simple]
  simp only [Bool.false_eq_true, ↓reduceIte]
  generalize equ_replacement.entries = entries at keys
  induction entries generalizing input with
  | nil => exact ⟨input, rfl⟩
  | cons entry entries ih =>
    have later := fun other member => keys other (List.mem_cons_of_mem entry member)
    rw [List.foldlM_cons]
    by_cases occurs : entry.1 <:+: input
    · obtain ⟨out, done⟩ := replaceWholeWord_unbracketed (keys entry List.mem_cons_self) env.reading input entry.2
      rw [if_pos occurs, done]
      exact ih out later
    · rw [if_neg occurs]
      exact ih input later

theorem mapM_sedEqu_plain {env : Environment} (simple : env.regex = false)
    {equ_replacement : OrderedMap (List Char) (List Char)} (plain : PlainKeys equ_replacement) (file : List (List Char)) :
    ∃ out, file.mapM (sedEqu env equ_replacement) = .ok out := by
  cases done : file.mapM (sedEqu env equ_replacement) with
  | ok out => exact ⟨out, rfl⟩
  | error e =>
    obtain ⟨line, -, failed⟩ := Effects.except_mapM_error done
    obtain ⟨out, replaced⟩ := sedEqu_plain simple plain line
    rw [replaced] at failed
    cases failed

/-! ## Labels -/

/-- Without labels a file stays as it is. -/
theorem lineMarkerRegister_unmarked {reading : TargetReading} {file : List (List Char)}
    (unmarked : ∀ line ∈ file, lineMatches lineMarkPattern line = false) :
    lineMarkerRegister reading file = .ok (file, []) := by
  have run (current : List (List Char)) : file.foldlM (registerLine reading) ⟨[], [], .empty, current, []⟩ =
      .ok ⟨[], [], .empty, current ++ file, []⟩ := by
    induction file generalizing current with
    | nil => rw [List.append_nil]; rfl
    | cons line file ih =>
      have turn : registerLine reading ⟨[], [], .empty, current, []⟩ line = .ok ⟨[], [], .empty, current ++ [line], []⟩ := by
        rw [registerLine, unmarked line List.mem_cons_self, if_neg Bool.false_ne_true]
      rw [List.foldlM_cons, turn]
      have later := ih (fun other member => unmarked other (List.mem_cons_of_mem _ member)) (current ++ [line])
      rwa [List.append_assoc] at later
  have same : file.mapM (replaceMarkers reading (.empty : OrderedMap (List Char) (List Char))) = .ok file := by
    refine Effects.except_mapM_eq_ok.mpr (List.forall₂_same.mpr fun line _ => rfl)
  rw [lineMarkerRegister, run []]
  refine Effects.except_bind_eq_ok.mpr ⟨_, rfl, Effects.except_bind_eq_ok.mpr ⟨file, same, ?_⟩⟩
  exact congrArg (fun lines => Except.ok (lines, [])) (List.append_nil file)

/-- What `HeadProcess` leaves of the lines of a header has no label, no comment and no tab. -/
theorem LeftLines.registered {reading : TargetReading} {lines : List HeaderLine} {file : List (List Char)}
    (left : LeftLines lines file) : lineMarkerRegister reading (file.map cleanText) = .ok (file, []) := by
  have plain : file.map cleanText = file ∧ ∀ text ∈ file, lineMatches lineMarkPattern text = false := by
    induction left with
    | nil => exact ⟨rfl, by simp⟩
    | cons first later ih =>
      obtain ⟨same, unmarked⟩ := ih
      refine ⟨by rw [List.map_cons, same, cleanText_eq, first.2], fun text member => ?_⟩
      rcases List.mem_cons.mp member with rfl | inside
      · exact first.1.unmarked
      · exact unmarked text inside
  rw [plain.1]
  exact lineMarkerRegister_unmarked plain.2

theorem leftLines_of_empty {file : List (List Char)} (empty : ∀ text ∈ file, isLineEmpty text = true) :
    LeftLines (file.map fun _ => .blank) file := by
  refine List.forall₂_map_left_iff.mpr (List.forall₂_same.mpr fun text member => ?_)
  have spaces := (isLineEmpty_iff text).mp (empty text member)
  exact ⟨spaces, headText_of_plain fun c inside => by rw [spaces c inside]; decide⟩

/-! ## The recursion -/

/-- Whether the loop over the directives goes on behind a line. -/
def goesOn (line : List Char) : Bool :=
  isLineEmpty line || lineMatches orgPattern line || lineMatches labPattern line || lineMatches equPattern line

theorem declare_isSome {line : List Char} (visible : isLineEmpty line = false) (goes_on : goesOn line = true)
    (tables : Tables) :
    ∃ tables', declare line tables = some tables' := by
  rw [goesOn, visible, Bool.false_or, Bool.or_eq_true, Bool.or_eq_true] at goes_on
  rw [declare]
  split_ifs with org lab equ
  · exact ⟨_, rfl⟩
  · exact ⟨_, rfl⟩
  · exact ⟨_, rfl⟩
  · exact absurd goes_on (by simp [org, lab, equ])

/-- A directive that adds plain keys only. -/
def PlainLine (line : List Char) : Prop :=
  isLineEmpty line = false → ∀ tables tables', declare line tables = some tables' →
    PlainKeys tables.equ_replacement → PlainKeys tables'.equ_replacement

section Recursion

variable (env : Environment) (library : HeaderLibrary env.files)

/-- Regular expressions are off, and no key of a header has a bracket or a brace. -/
def PlainHeaders : Prop :=
  env.regex = false ∧ ∀ header ∈ library.headers, ∀ line ∈ header.lines, ∀ key ∈ line.keys, Unbracketed key

/-- Nested calls that are deep enough for the guards that are not defined process the headers of the library. -/
def ProcessesHeaders (fuel : ℕ) : Prop :=
  ∀ header ∈ library.headers, ∀ line_number tables, openGuards library tables.definition < fuel →
    Effects.Ends (processHeader env (preProcess env fuel) (header.recorded line_number) tables)
      (PlainHeaders env library ∧ PlainKeys tables.equ_replacement) fun tables' =>
        Processes library tables tables'
            (headerVisits env (preProcessVisits env fuel) (header.recorded line_number) tables) ∧
          tables'.definition.contains header.guard = true ∧
            (PlainHeaders env library → PlainKeys tables.equ_replacement → PlainKeys tables'.equ_replacement)

/-- What the loop over the directives has done behind some lines. -/
structure Looped (fuel : ℕ) (headers : List IncludeFile) (line_number : ℕ) (lines : List (List Char))
    (tables tables' : Tables) : Prop where
  processes : Processes library tables tables'
    (lineVisits env (preProcess env fuel) (preProcessVisits env fuel) headers line_number lines tables)
  included : ∀ index < lines.length, (∀ line ∈ lines.take index, goesOn (truncateAfterSemicolonOrHash line) = true) →
    ∀ header, headerInThisLine headers (line_number + index) = some header →
      ∃ original ∈ library.headers, original.path = header.file_name ∧ tables'.definition.contains original.guard = true
  declared : (∀ line ∈ lines, goesOn (truncateAfterSemicolonOrHash line) = true) → ∀ line ∈ lines,
    isLineEmpty (truncateAfterSemicolonOrHash line) = false →
      ∃ before after, declare (truncateAfterSemicolonOrHash line) before = some after ∧ Grows after tables'
  plain : PlainHeaders env library → (∀ line ∈ lines, PlainLine (truncateAfterSemicolonOrHash line)) →
    PlainKeys tables.equ_replacement → PlainKeys tables'.equ_replacement

variable {env library} {fuel line_number : ℕ} {headers : List IncludeFile} {tables : Tables}

/-- What the header of a line does to the tables. -/
structure Included (env : Environment) (library : HeaderLibrary env.files) (fuel : ℕ) (headers : List IncludeFile)
    (line_number : ℕ) (tables tables' : Tables) : Prop where
  processes : Processes library tables tables' (((headerInThisLine headers line_number).map fun header =>
    headerVisits env (preProcessVisits env fuel) header tables).getD [])
  defined : ∀ header, headerInThisLine headers line_number = some header →
    ∃ original ∈ library.headers, original.path = header.file_name ∧ tables'.definition.contains original.guard = true
  plain : PlainHeaders env library → PlainKeys tables.equ_replacement → PlainKeys tables'.equ_replacement

/-- The loop goes on behind a line. -/
theorem Looped.cons {line : List Char} {rest : List (List Char)} {middle next tables' : Tables}
    (here : Included env library fuel headers line_number tables middle)
    (ran : (processHeaders env (preProcess env fuel) headers line_number tables).run = some (.ok middle))
    (turn : (isLineEmpty (truncateAfterSemicolonOrHash line) = true ∧ next = middle) ∨
      (isLineEmpty (truncateAfterSemicolonOrHash line) = false ∧
        declare (truncateAfterSemicolonOrHash line) middle = some next))
    (behind : Looped env library fuel headers (line_number + 1) rest next tables') :
    Looped env library fuel headers line_number (line :: rest) tables tables' := by
  have step : Grows middle next ∧ next.definition = middle.definition := by
    rcases turn with ⟨-, rfl⟩ | ⟨-, declared⟩
    · exact ⟨Grows.refl _, rfl⟩
    · exact declare_grows declared
  have walked : lineVisits env (preProcess env fuel) (preProcessVisits env fuel) headers line_number (line :: rest) tables =
      ((headerInThisLine headers line_number).map fun header =>
        headerVisits env (preProcessVisits env fuel) header tables).getD [] ++
          lineVisits env (preProcess env fuel) (preProcessVisits env fuel) headers (line_number + 1) rest next := by
    rw [lineVisits, ran]
    dsimp only
    rcases turn with ⟨blank, rfl⟩ | ⟨visible, declared⟩
    · rw [if_pos blank]
    · rw [if_neg (by rw [visible]; exact Bool.false_ne_true), declared]
  refine ⟨?_, fun index inside passed header found => ?_, fun passed other member visible => ?_,
    fun headers_plain lines plain => ?_⟩
  · rw [walked]
    exact here.processes.trans (((step.1.processes step.2).trans behind.processes))
  · cases index with
    | zero =>
      obtain ⟨original, member, same, defined⟩ := here.defined header found
      exact ⟨original, member, same, behind.processes.grows.definition _ (step.1.definition _ defined)⟩
    | succ index =>
      rw [show line_number + (index + 1) = line_number + 1 + index by omega] at found
      exact behind.included index (Nat.lt_of_succ_lt_succ inside)
        (fun other member => passed other (List.mem_cons_of_mem _ member)) header found
  · rcases List.mem_cons.mp member with rfl | later
    · rcases turn with ⟨blank, -⟩ | ⟨-, declared⟩
      · rw [blank] at visible
        cases visible
      · exact ⟨middle, next, declared, behind.processes.grows⟩
    · exact behind.declared (fun other member => passed other (List.mem_cons_of_mem _ member)) other later visible
  · refine behind.plain headers_plain (fun other member => lines other (List.mem_cons_of_mem _ member)) ?_
    have before := here.plain headers_plain plain
    rcases turn with ⟨-, rfl⟩ | ⟨visible, declared⟩
    · exact before
    · exact lines line List.mem_cons_self visible middle next declared before

/-- The loop ends at a line that is no directive. -/
theorem Looped.stop {line : List Char} {rest : List (List Char)} {middle : Tables}
    (here : Included env library fuel headers line_number tables middle)
    (ran : (processHeaders env (preProcess env fuel) headers line_number tables).run = some (.ok middle))
    (visible : isLineEmpty (truncateAfterSemicolonOrHash line) = false)
    (code : declare (truncateAfterSemicolonOrHash line) middle = none) :
    Looped env library fuel headers line_number (line :: rest) tables middle := by
  have stops : ¬ goesOn (truncateAfterSemicolonOrHash line) = true := by
    intro goes_on
    obtain ⟨next, declared⟩ := declare_isSome visible goes_on middle
    rw [code] at declared
    cases declared
  refine ⟨?_, fun index inside passed header found => ?_, fun passed => absurd (passed line List.mem_cons_self) stops,
    fun headers_plain _ => here.plain headers_plain⟩
  · rw [lineVisits, ran]
    dsimp only
    rw [if_neg (by rw [visible]; exact Bool.false_ne_true), code, List.append_nil]
    exact here.processes
  · cases index with
    | zero => exact here.defined header found
    | succ index => exact absurd (passed line (by rw [List.take_succ_cons]; exact List.mem_cons_self)) stops

/-- The header of a line is processed. -/
theorem processHeaders_ends (recursive : ProcessesHeaders env library fuel)
    (known : ∀ header ∈ headers, ∃ original ∈ library.headers, header = original.recorded header.appearance_at_line_num)
    (small : openGuards library tables.definition < fuel) :
    Effects.Ends (processHeaders env (preProcess env fuel) headers line_number tables)
      (PlainHeaders env library ∧ PlainKeys tables.equ_replacement)
      (Included env library fuel headers line_number tables) := by
  rw [processHeaders]
  cases found : headerInThisLine headers line_number with
  | none =>
    refine .pure ⟨?_, fun header same => ?_, fun _ => id⟩
    · rw [found]
      exact (Grows.refl tables).processes rfl
    · rw [found] at same
      cases same
  | some header =>
    have member : header ∈ headers := by
      rw [headerInThisLine, Option.filter_eq_some_iff] at found
      exact List.mem_of_find?_eq_some found.1
    obtain ⟨original, inside, same⟩ := known header member
    have ends := recursive original inside header.appearance_at_line_num tables small
    rw [← same] at ends
    refine ends.imp id ?_
    rintro tables' ⟨processes, defined, plain⟩
    refine ⟨?_, fun other reported => ?_, plain⟩
    · rw [found]
      exact processes
    · obtain rfl := Option.some.inj (found.symm.trans reported)
      exact ⟨original, inside, by rw [same]; rfl, defined⟩

/-- The loop over the directives comes to an end. -/
theorem declareLines_ends (recursive : ProcessesHeaders env library fuel)
    (known : ∀ header ∈ headers, ∃ original ∈ library.headers, header = original.recorded header.appearance_at_line_num)
    (lines : List (List Char)) (small : openGuards library tables.definition < fuel) :
    Effects.Ends (declareLines env (preProcess env fuel) headers line_number lines tables)
      (PlainHeaders env library ∧ (∀ line ∈ lines, PlainLine (truncateAfterSemicolonOrHash line)) ∧
        PlainKeys tables.equ_replacement)
      fun done => Looped env library fuel headers line_number lines tables done.2 := by
  induction lines generalizing line_number tables with
  | nil =>
    exact .pure ⟨(Grows.refl tables).processes rfl, fun index inside => absurd inside (Nat.not_lt_zero index), by simp,
      fun _ _ => id⟩
  | cons line rest ih =>
    rw [declareLines]
    refine Effects.Ends.bind
      ((processHeaders_ends recursive known small).imp (fun safe => ⟨safe.1, safe.2.2⟩) fun _ => id) ?_
    intro middle ran here
    have smaller := (openGuards_le here.processes.grows.definition).trans_lt small
    dsimp only
    by_cases blank : isLineEmpty (truncateAfterSemicolonOrHash line) = true
    · rw [if_pos blank]
      refine Effects.Ends.bind ((@ih (line_number + 1) middle smaller).imp
        (fun safe =>
          ⟨safe.1, fun other member => safe.2.1 other (List.mem_cons_of_mem _ member), here.plain safe.1 safe.2.2⟩)
        fun _ => id) ?_
      exact fun done _ looped => .pure (looped.cons here ran (.inl ⟨blank, rfl⟩))
    · have visible := (Bool.not_eq_true _).mp blank
      rw [if_neg blank]
      cases declared : declare (truncateAfterSemicolonOrHash line) middle with
      | none => exact .pure (Looped.stop here ran visible declared)
      | some next =>
        have growing := declare_grows declared
        have smaller' : openGuards library next.definition < fuel := by rwa [growing.2]
        refine Effects.Ends.bind ((@ih (line_number + 1) next smaller').imp
          (fun safe => ⟨safe.1, fun other member => safe.2.1 other (List.mem_cons_of_mem _ member),
            safe.2.1 line List.mem_cons_self visible middle next declared (here.plain safe.1 safe.2.2)⟩) fun _ => id) ?_
        exact fun done _ looped => .pure (looped.cons here ran (.inr ⟨visible, declared⟩))

theorem truncate_of_plain {text : List Char} (plain : headText text = text) : truncateAfterSemicolonOrHash text = text := by
  refine List.takeWhile_eq_self_iff.mpr fun c member => ?_
  rw [← plain] at member
  exact (mem_headText member).1

theorem truncate_of_empty {line : List Char} (empty : isLineEmpty line = true) :
    truncateAfterSemicolonOrHash line = line := by
  refine truncate_of_plain (headText_of_plain fun c member => ?_)
  rw [(isLineEmpty_iff line).mp empty c member]
  decide

/-- Lines without text and without headers change nothing. -/
theorem declareLines_empty {nested : List (List Char) → List IncludeFile → Tables → Nested (List (List Char) × Tables)}
    (visits : List (List Char) → List IncludeFile → Tables → List (List Char)) {lines : List (List Char)}
    (empty : ∀ line ∈ lines, isLineEmpty line = true) (line_number : ℕ) :
    (declareLines env nested [] line_number lines tables).run = some (.ok (lines, tables)) ∧
      lineVisits env nested visits [] line_number lines tables = [] := by
  induction lines generalizing line_number with
  | nil => exact ⟨rfl, rfl⟩
  | cons line lines ih =>
    obtain ⟨ran, visited⟩ := ih (fun other member => empty other (List.mem_cons_of_mem _ member)) (line_number + 1)
    have here := empty line List.mem_cons_self
    have nothing : (processHeaders env nested [] line_number tables).run = some (.ok tables) := rfl
    constructor
    · rw [declareLines, Effects.nested_bind_ok nothing]
      dsimp only
      rw [truncate_of_empty here, if_pos here, Effects.nested_bind_ok ran]
      rfl
    · rw [lineVisits, nothing]
      dsimp only
      rw [truncate_of_empty here, if_pos here, visited]
      rfl

/-- So do whole files of such lines. -/
theorem preProcess_empty {file : List (List Char)} (empty : ∀ text ∈ file, isLineEmpty text = true) :
    preProcessVisits env (fuel + 1) file [] tables = [] ∧
      Effects.Ends (preProcess env (fuel + 1) file [] tables) (env.regex = false ∧ PlainKeys tables.equ_replacement)
        fun done => done.2 = tables := by
  have registered := @LeftLines.registered env.reading _ _ (leftLines_of_empty empty)
  obtain ⟨ran, visited⟩ := @declareLines_empty env tables (preProcess env fuel) (preProcessVisits env fuel) _ empty 1
  constructor
  · rw [preProcessVisits, registered]
    exact visited
  · rw [preProcess]
    have registers : Effects.Ends (Nested.ofExcept (lineMarkerRegister env.reading (file.map cleanText)))
        (env.regex = false ∧ PlainKeys tables.equ_replacement) (· = (file, [])) :=
      .ok registered
    refine registers.bind ?_
    rintro _ - rfl
    have declares : Effects.Ends (declareLines env (preProcess env fuel) [] 1 file tables)
        (env.regex = false ∧ PlainKeys tables.equ_replacement) (· = (file, tables)) :=
      ⟨_, ran, fun done same => (Except.ok.inj same).symm, fun _ => ⟨_, rfl⟩⟩
    refine declares.bind ?_
    rintro _ - rfl
    have replaces : Effects.Ends (Nested.ofExcept (file.mapM (sedEqu env tables.equ_replacement)))
        (env.regex = false ∧ PlainKeys tables.equ_replacement) fun _ => True :=
      .except (fun _ _ => trivial) fun safe => mapM_sedEqu_plain safe.1 safe.2 file
    exact replaces.bind fun _ _ _ => .pure rfl

/-- A call of `PreProcess` that is deep enough for the guards that are not defined. -/
structure PreProcessed (env : Environment) (library : HeaderLibrary env.files) (fuel : ℕ) (file : List (List Char))
    (headers : List IncludeFile) (tables tables' : Tables) (registered : List (List Char)) (markers : List (List Char)) :
    Prop where
  registers : lineMarkerRegister env.reading (file.map cleanText) = .ok (registered, markers)
  looped : Looped env library fuel headers 1 registered
    { tables with defined_line_marker := markers.foldl declareMarker tables.defined_line_marker } tables'
  processes : Processes library tables tables' (preProcessVisits env (fuel + 1) file headers tables)

/-- The file has labels that can be registered, and plain keys. -/
def HarmlessFile (env : Environment) (file : List (List Char)) : Prop :=
  ∃ registered markers, lineMarkerRegister env.reading (file.map cleanText) = .ok (registered, markers) ∧
    ∀ line ∈ registered, PlainLine (truncateAfterSemicolonOrHash line)

theorem preProcess_ends (recursive : ProcessesHeaders env library fuel)
    (known : ∀ header ∈ headers, ∃ original ∈ library.headers, header = original.recorded header.appearance_at_line_num)
    (file : List (List Char)) (small : openGuards library tables.definition < fuel) :
    Effects.Ends (preProcess env (fuel + 1) file headers tables)
      (PlainHeaders env library ∧ HarmlessFile env file ∧ PlainKeys tables.equ_replacement)
      fun done => ∃ registered markers, PreProcessed env library fuel file headers tables done.2 registered markers := by
  rw [preProcess]
  have first : Effects.Ends (Nested.ofExcept (lineMarkerRegister env.reading (file.map cleanText)))
      (PlainHeaders env library ∧ HarmlessFile env file ∧ PlainKeys tables.equ_replacement)
      fun done => lineMarkerRegister env.reading (file.map cleanText) = .ok done :=
    .except (fun _ => id) fun safe => by
      obtain ⟨registered, markers, done, -⟩ := safe.2.1
      exact ⟨_, done⟩
  refine first.bind ?_
  rintro ⟨registered, markers⟩ - registers
  dsimp only
  have start : Grows tables { tables with defined_line_marker := markers.foldl declareMarker tables.defined_line_marker } :=
    ⟨fun _ => id, fun _ => id, fun name present => isLineMarkerPresent_foldl.mpr (.inr present)⟩
  have loop := @declareLines_ends env library fuel 1 headers
    { tables with defined_line_marker := markers.foldl declareMarker tables.defined_line_marker }
    recursive known registered small
  have lines_plain : HarmlessFile env file → ∀ line ∈ registered, PlainLine (truncateAfterSemicolonOrHash line) := by
    rintro ⟨registered', markers', done, plain⟩
    rw [registers] at done
    cases done
    exact plain
  refine Effects.Ends.bind (loop.imp (fun safe => ⟨safe.1, lines_plain safe.2.1, safe.2.2⟩) fun _ => id) ?_
  rintro ⟨lines, tables'⟩ - looped
  have last : Effects.Ends (Nested.ofExcept (lines.mapM (sedEqu env tables'.equ_replacement)))
      (PlainHeaders env library ∧ HarmlessFile env file ∧ PlainKeys tables.equ_replacement) fun _ => True :=
    .except (fun _ _ => trivial) fun safe =>
      mapM_sedEqu_plain safe.1.1 (looped.plain safe.1 (lines_plain safe.2.1) safe.2.2) lines
  refine last.bind ?_
  rintro final - -
  refine .pure ⟨registered, markers, registers, looped, ?_⟩
  have walked : preProcessVisits env (fuel + 1) file headers tables =
      lineVisits env (preProcess env fuel) (preProcessVisits env fuel) headers 1 registered
        { tables with defined_line_marker := markers.foldl declareMarker tables.defined_line_marker } := by
    rw [preProcessVisits, registers]
  rw [walked]
  exact (start.processes rfl).trans looped.processes

theorem goesOn_of_declare {line : List Char} {tables tables' : Tables} (done : declare line tables = some tables') :
    goesOn line = true := by
  rw [declare] at done
  split_ifs at done with org lab equ
  · simp [goesOn, org]
  · simp [goesOn, lab]
  · simp [goesOn, equ]

/-- The loop over the directives passes a line of a header. -/
theorem HeaderLine.goesOn {line : HeaderLine} {text : List Char} (spelled : line.left.Spells text) :
    Coding.goesOn text = true := by
  rcases spelled.declare ⟨[], 0, .empty, .empty⟩ with ⟨empty, -, -⟩ | ⟨-, tables', declared, -⟩
  · simp [Coding.goesOn, empty]
  · exact goesOn_of_declare declared

/-- Behind the loop over what is left of a header, everything in the header is in the tables. -/
theorem HeaderRead.complete {header : GuardedHeader} {definition definition' : Definitions} {file : List (List Char)}
    {tables' : Tables} (read : HeaderRead env.files header definition file definition' headers)
    (looped : Looped env library fuel headers 1 file tables tables') (paths : ∀ other ∈ headers, other.file_name ≠ []) :
    Complete library header tables' := by
  obtain ⟨lines, left, inside, -⟩ := read.left
  have passed : ∀ text ∈ file, goesOn (truncateAfterSemicolonOrHash text) = true := by
    intro text member
    obtain ⟨_, _, _, line, _, -, -, -, spelled⟩ := forall₂_split left.flip member
    rw [truncate_of_plain spelled.2]
    exact HeaderLine.goesOn spelled.1
  intro line member
  have declares : (∀ key ∈ line.keys, tables'.equ_replacement.contains key = true) ∧
      ∀ name ∈ line.symbols, isLineMarkerPresent tables'.defined_line_marker name = true := by
    obtain ⟨_, _, before, text, after, -, rfl, -, spelled⟩ := forall₂_split left (inside line member)
    have here : text ∈ before ++ text :: after := List.mem_append_right _ List.mem_cons_self
    have same := truncate_of_plain spelled.2
    cases visible : isLineEmpty text with
    | true =>
      rcases spelled.1.declare tables with ⟨-, keys, symbols⟩ | ⟨filled, -⟩
      · simp [keys, symbols]
      · rw [visible] at filled
        cases filled
    | false =>
      obtain ⟨first, next, declared, grows⟩ := looped.declared passed text here (by rw [same, visible])
      rw [same] at declared
      rcases spelled.1.declare first with ⟨empty, -⟩ | ⟨-, next', declared', effect⟩
      · rw [visible] at empty
        cases empty
      · obtain rfl := Option.some.inj (declared.symm.trans declared')
        exact ⟨fun key member => grows.keys key ((effect.keys key).mpr (.inl member)),
          fun name member => grows.symbols name ((effect.symbols name).mpr (.inl member))⟩
  refine ⟨declares.1, declares.2, fun path included other member' same => ?_⟩
  obtain ⟨recorded, found, named⟩ := read.included line member path included
  obtain ⟨low, high⟩ := read.recorded.placed recorded found
  have place : 1 + (recorded.appearance_at_line_num - 1) = recorded.appearance_at_line_num := by omega
  obtain ⟨original, known, original_path, defined⟩ := looped.included (recorded.appearance_at_line_num - 1)
    (by rw [read.length]; omega) (fun text member => passed text (List.mem_of_mem_take member)) recorded
    (by rw [place]; exact read.recorded.headerInThisLine found (paths recorded found))
  rw [named, ← same] at original_path
  rwa [List.inj_on_of_nodup_map library.paths known member' original_path] at defined

/-- The keys of a header are those of its lines. -/
theorem HeaderRead.harmlessFile {header : GuardedHeader} {definition definition' : Definitions} {file : List (List Char)}
    (read : HeaderRead env.files header definition file definition' headers)
    (keys : ∀ line ∈ header.lines, ∀ key ∈ line.keys, Unbracketed key) : HarmlessFile env file := by
  obtain ⟨lines, left, -, only⟩ := read.left
  refine ⟨file, [], left.registered, fun text member visible before after declared plain => ?_⟩
  obtain ⟨_, _, front, line, back, -, split, -, spelled⟩ := forall₂_split left.flip member
  rw [truncate_of_plain spelled.2] at declared visible
  have reading : line.left.Spells text := spelled.1
  rcases reading.declare before with ⟨empty, -⟩ | ⟨-, next, declared', effect⟩
  · rw [visible] at empty
    cases empty
  · obtain rfl := Option.some.inj (declared.symm.trans declared')
    intro key known
    rcases (effect.keys key).mp known with new | old
    · rcases only line (by rw [split]; simp) with inside | rfl
      · exact keys line inside key new
      · cases new
    · exact plain key old

/-- A header whose guard is defined changes nothing. -/
theorem processHeader_known {header : GuardedHeader} (known : tables.definition.contains header.guard = true) :
    Effects.Ends (processHeader env (preProcess env (fuel + 1)) (header.recorded line_number) tables)
        (PlainHeaders env library ∧ PlainKeys tables.equ_replacement) (· = tables) ∧
      headerVisits env (preProcessVisits env (fuel + 1)) (header.recorded line_number) tables = [] := by
  obtain ⟨file, head, empty⟩ := @GuardedHeader.headProcess_known env.files env.include_path tables.definition header known
  obtain ⟨visits, ends⟩ := @preProcess_empty env fuel tables file empty
  have heads : Effects.Ends (Nested.ofExcept (headProcess env.files env.include_path header.content tables.definition []))
      (PlainHeaders env library ∧ PlainKeys tables.equ_replacement) (· = (file, tables.definition, [])) :=
    .ok head
  constructor
  · refine (heads.bind ?_).adapt
    rintro _ - rfl
    refine (ends.imp (fun safe => ⟨safe.1.1, safe.2⟩) fun _ => id).bind ?_
    rintro ⟨lines, tables'⟩ - same
    exact .pure same
  · have all : file.all isLineEmpty = true := List.all_eq_true.mpr empty
    rw [headerVisits, GuardedHeader.recorded, head]
    dsimp only
    rw [if_pos all, visits]
    rfl

/-- A header whose guard is not defined is processed, with nested calls that are one guard deeper. -/
theorem processHeader_new (recursive : ProcessesHeaders env library fuel) {header : GuardedHeader}
    (member : header ∈ library.headers) (new : tables.definition.contains header.guard = false)
    (small : openGuards library tables.definition < fuel + 1) :
    Effects.Ends (processHeader env (preProcess env (fuel + 1)) (header.recorded line_number) tables)
      (PlainHeaders env library ∧ PlainKeys tables.equ_replacement) fun tables' =>
        Processes library tables tables'
          (headerVisits env (preProcessVisits env (fuel + 1)) (header.recorded line_number) tables) ∧
          tables'.definition.contains header.guard = true ∧
            (PlainHeaders env library → PlainKeys tables.equ_replacement → PlainKeys tables'.equ_replacement) := by
  obtain ⟨file, definition, headers, head, read⟩ :=
    @HeaderLibrary.headProcess_new env.files env.include_path tables.definition header library member new
  have guarded : definition.contains header.guard = true :=
    (read.defined _).mpr (.inl ⟨_, List.mem_cons_self, List.mem_singleton_self _⟩)
  have deeper : openGuards library definition < fuel := by
    have fewer := @openGuards_lt env.files library _ _ header member
      (fun name known => (read.defined name).mpr (.inr known)) new guarded
    omega
  have known := library.recorded_header (fun text inside path => library.closed_text member inside) read.recorded
  have ends := @preProcess_ends env library fuel headers { tables with definition } recursive known file deeper
  have heads : Effects.Ends (Nested.ofExcept (headProcess env.files env.include_path header.content tables.definition []))
      (PlainHeaders env library ∧ PlainKeys tables.equ_replacement) (· = (file, definition, headers)) :=
    .ok head
  refine (heads.bind ?_).adapt
  rintro _ - rfl
  refine (ends.imp (fun safe => ⟨safe.1, read.harmlessFile (safe.1.2 header member), safe.2⟩) fun _ => id).bind ?_
  rintro ⟨lines, tables'⟩ - ⟨registered, markers, done⟩
  have lines_plain (keys : PlainHeaders env library) :
      ∀ line ∈ registered, PlainLine (truncateAfterSemicolonOrHash line) := by
    obtain ⟨registered', markers', registers, plain⟩ := read.harmlessFile (keys.2 header member)
    rw [done.registers] at registers
    cases registers
    exact plain
  obtain ⟨spelled, left, inside, -⟩ := read.left
  obtain ⟨rfl, rfl⟩ := Prod.mk.inj (Except.ok.inj (done.registers.symm.trans left.registered))
  have named : ∀ other ∈ headers, other.file_name ≠ [] := by
    intro other recorded
    obtain ⟨original, -, same⟩ := known other recorded
    rw [same]
    exact original.named
  have visible : registered.all isLineEmpty = false := by
    obtain ⟨_, _, before, text, after, -, split, -, turned⟩ := forall₂_split left (inside _ List.mem_cons_self)
    rw [List.all_eq_false]
    refine ⟨text, by rw [split]; simp, ?_⟩
    rcases turned.1.declare tables with ⟨-, keys, -⟩ | ⟨filled, -⟩
    · cases keys
    · rw [filled]
      exact Bool.false_ne_true
  have visits : headerVisits env (preProcessVisits env (fuel + 1)) (header.recorded line_number) tables =
      header.path :: preProcessVisits env (fuel + 1) registered headers { tables with definition } := by
    rw [headerVisits, GuardedHeader.recorded, head]
    dsimp only
    rw [visible, if_neg Bool.false_ne_true]
    rfl
  refine .pure ⟨?_, done.processes.grows.definition _ guarded, fun keys plain =>
    done.looped.plain keys (lines_plain keys) plain⟩
  rw [visits]
  exact HeaderLibrary.processes_cons member new read.defined done.processes (read.complete done.looped named)

/-- So the headers of the library are processed, whatever they include. -/
theorem processesHeaders (env : Environment) (library : HeaderLibrary env.files) (fuel : ℕ) :
    ProcessesHeaders env library fuel := by
  induction fuel with
  | zero => exact fun header _ line_number tables small => absurd small (Nat.not_lt_zero _)
  | succ fuel ih =>
    intro header member line_number tables small
    cases known : OrderedMap.contains tables.definition header.guard with
    | false => exact processHeader_new ih member known small
    | true =>
      obtain ⟨ends, visits⟩ := @processHeader_known env library fuel line_number tables header known
      refine ends.imp id ?_
      rintro _ rfl
      rw [visits]
      exact ⟨(Grows.refl _).processes rfl, known, fun _ => id⟩

end Recursion

/-! ## Source files -/

section Sources

variable (env : Environment) (library : HeaderLibrary env.files) (source : List (List Char)) (tables : Tables)

/-- An `%include` line behind so many others that `HeadProcess` does not skip. -/
def IncludesAt (definition : Definitions) (index : ℕ) (path : List Char) : Prop :=
  ∃ before text after earlier reached, source = before ++ text :: after ∧ before.length = index ∧
    (HeaderLine.inclusion path).Spells (headText text) ∧
      headLines env.files env.include_path 1 ⟨false, false, definition, []⟩ before = .ok (earlier, reached) ∧
        reached.skipping = false

/-- The headers that a source file includes, that these include, and so on. -/
inductive ReachedFrom : GuardedHeader → Prop
  | source {header : GuardedHeader} {index : ℕ} (member : header ∈ library.headers)
      (included : IncludesAt env source tables.definition index header.path) : ReachedFrom header
  | header {header other : GuardedHeader} {line : HeaderLine} (reached : ReachedFrom header)
      (member : other ∈ library.headers) (inside : line ∈ header.body) (included : other.path ∈ line.includes) :
      ReachedFrom other

/-- No guard is defined when the source file has been through `HeadProcess`. -/
def GuardsOpen : Prop :=
  ∀ file definition headers, headProcess env.files env.include_path source tables.definition [] =
      .ok (file, definition, headers) →
    ∀ header ∈ library.headers, definition.contains header.guard = false

/-- No line in front of an `%include` line ends the loop over the directives. -/
def IncludesFirst : Prop :=
  ∀ index path, IncludesAt env source tables.definition index path →
    ∀ file definition headers registered markers,
      headProcess env.files env.include_path source tables.definition [] = .ok (file, definition, headers) →
        lineMarkerRegister env.reading (file.map cleanText) = .ok (registered, markers) →
          ∀ line ∈ registered.take index, goesOn (truncateAfterSemicolonOrHash line) = true

/-- The tables have every key and every symbol of a header. -/
def Declared (header : GuardedHeader) (tables' : Tables) : Prop :=
  ∀ line ∈ header.lines, (∀ key ∈ line.keys, tables'.equ_replacement.contains key = true) ∧
    ∀ name ∈ line.symbols, isLineMarkerPresent tables'.defined_line_marker name = true

/-- Every header that is reached is processed once, and all it declares is in the tables. -/
def ProcessedOnce (fuel : ℕ) (tables' : Tables) : Prop :=
  ∀ header, ReachedFrom env library source tables header →
    (sourceVisits env fuel source tables).count header.path = 1 ∧ Declared header tables'

/-- Nothing in the source file or the headers makes the run throw: regular expressions are off, `HeadProcess` and the
registration of the labels succeed, and no key of a replacement has a bracket or a brace. -/
def Harmless : Prop :=
  PlainHeaders env library ∧ PlainKeys tables.equ_replacement ∧
    ∃ file definition headers registered markers,
      headProcess env.files env.include_path source tables.definition [] = .ok (file, definition, headers) ∧
        lineMarkerRegister env.reading (file.map cleanText) = .ok (registered, markers) ∧
          ∀ line ∈ registered, ∀ key value,
            (HeaderLine.equ key value).Spells (truncateAfterSemicolonOrHash line) → Unbracketed key

end Sources

section Equ

variable {line : List Char}

/-- What the pattern of `.equ` accepts is an `.equ` line. -/
theorem spells_of_equPattern (matched : lineMatches equPattern line = true) :
    ∃ key value, (HeaderLine.equ key value).Spells line := by
  obtain ⟨captures, derivation⟩ := fullMatch_isSome_iff.mp matched
  obtain ⟨rest, begins, found⟩ := derives_beginsWith.mp derivation
  obtain ⟨_, _, _, _, rfl, -, first, spaced⟩ := derives_seq.mp found
  obtain ⟨key, rfl, plain, -⟩ := derives_quoted.mp first
  obtain ⟨before, _, rfl, white, listed⟩ := reads_spaces.derives_seq.mp spaced
  obtain ⟨_, rfl, comma⟩ := derives_chr_seq.mp listed
  obtain ⟨after, _, rfl, white', valued⟩ := reads_spaces.derives_seq.mp comma
  obtain ⟨_, tail, _, _, rfl, -, second, last⟩ := derives_seq.mp valued
  obtain ⟨value, rfl, plain', -⟩ := derives_quoted.mp second
  obtain ⟨blank, -⟩ := reads_spaces.mp last
  refine ⟨key, value, before, after, tail, ?_, plain, plain', white, white', blank⟩
  simpa only [List.cons_append, List.append_assoc, List.nil_append] using begins

theorem plainLine_of_equ (keys : ∀ key value, (HeaderLine.equ key value).Spells line → Unbracketed key) :
    PlainLine line := by
  intro _ before after done plain
  rw [declare] at done
  split_ifs at done with org lab equ
  · cases done
    exact plain
  · cases done
    exact plain
  · cases done
    obtain ⟨key, value, spelled⟩ := spells_of_equPattern equ
    intro other known
    rw [spelled.processEqu, contains_emplace_iff] at known
    rcases known with rfl | known
    · exact keys _ value spelled
    · exact plain other known

end Equ

section Sources

variable {env : Environment} {library : HeaderLibrary env.files} {source : List (List Char)} {tables : Tables} {fuel : ℕ}

/-- What the driver does with a file that is compiled alone. -/
theorem preProcessFiles_source (env : Environment) (fuel org : ℕ) (name : List Char) (source : List (List Char)) :
    ∃ header_files, (preProcessFiles env fuel org [⟨name, source, [], .empty, []⟩]).run =
      (processSource env fuel source ⟨[], org, .empty, .empty⟩).run.map fun result =>
        (result.map fun (lines, tables) =>
          ([⟨name, lines, tables.defined_line_marker, tables.definition, header_files⟩], tables.org)).mapError
            (fileError name) := by
  cases head : headProcess env.files env.include_path source .empty [] with
  | error e =>
    have failed : [FileAttr.mk name source [] .empty []].mapM (headFile env) = .error (fileError name e) := by
      rw [List.mapM_cons, headFile, head]
      rfl
    refine ⟨[], ?_⟩
    rw [preProcessFiles, processSource, head, failed]
    rfl
  | ok done =>
    obtain ⟨file, definition, headers⟩ := done
    have heads : [FileAttr.mk name source [] .empty []].mapM (headFile env) =
        .ok [⟨name, file, [], definition, headers⟩] := by
      rw [List.mapM_cons, headFile, head]
      rfl
    refine ⟨headers, ?_⟩
    rw [preProcessFiles, processSource, heads, head]
    change (preProcessEach env fuel org [⟨name, file, [], definition, headers⟩]).run =
      (preProcess env fuel file headers ⟨[], org, .empty, definition⟩).run.map _
    rw [preProcessEach, preProcessFile]
    dsimp only
    generalize preProcess env fuel file headers ⟨[], org, .empty, definition⟩ = nested
    rcases (nested : Option (Except BuildError (List (List Char) × Tables))) with _ | _ | ⟨lines, tables⟩
    · rfl
    · rfl
    · rfl
/-- What `HeadProcess` has recorded of a source file. -/
theorem headProcess_recorded {files : FileSystem} {include_path texts file : List (List Char)}
    {definition definition' : Definitions} {headers : List IncludeFile}
    (done : headProcess files include_path texts definition [] = .ok (file, definition', headers)) :
    ∃ state, headLines files include_path 1 ⟨false, false, definition, []⟩ texts = .ok (file, state) ∧
      state.header_files = headers ∧ RecordedHeaders files 1 texts headers := by
  obtain ⟨⟨lines, state⟩, scanned, same⟩ := Effects.except_map_eq_ok.mp done
  cases same
  obtain ⟨headers, back, recorded⟩ := headLines_recorded scanned
  rw [List.nil_append] at back
  exact ⟨state, scanned, rfl, back ▸ recorded⟩

/-- Behind a call of `PreProcess`, the guard of each header that is reached is defined. -/
theorem ReachedFrom.defined {header : GuardedHeader} {file registered markers : List (List Char)} {definition : Definitions}
    {headers : List IncludeFile} {tables' : Tables} (reached : ReachedFrom env library source tables header)
    (head : headProcess env.files env.include_path source tables.definition [] = .ok (file, definition, headers))
    (done : PreProcessed env library fuel file headers { tables with definition } tables' registered markers)
    (closed : ∀ header ∈ library.headers, definition.contains header.guard = false)
    (first : IncludesFirst env source tables) :
    header ∈ library.headers ∧ tables'.definition.contains header.guard = true := by
  induction reached with
  | @source header index member included =>
    have listed := included
    obtain ⟨before, text, after, earlier, reached, split, place, spelled, scanned, live⟩ := listed
    obtain ⟨state, lines, same, recorded⟩ := headProcess_recorded head
    rw [split] at lines
    have found := mem_headers_of_include lines (fun earlier' reached' again => by
      rw [scanned] at again
      cases again
      exact live) spelled (library.opened header member)
    rw [same, place] at found
    have inside : index < registered.length := by
      rw [lineMarkerRegister_length done.registers, List.length_map, headProcess_length head, split, ← place]
      simp
    obtain ⟨original, known, path, defined⟩ := done.looped.included index inside
      (first index _ included _ _ _ _ _ head done.registers) _ (recorded.headerInThisLine found header.named)
    obtain rfl := List.inj_on_of_nodup_map library.paths known member path
    exact ⟨member, defined⟩
  | @header header other line _ member inside included ih =>
    obtain ⟨known, defined⟩ := ih
    have complete := done.processes.complete header known (closed header known) defined
    exact ⟨member, (complete line (List.mem_cons_of_mem _ inside)).2.2 _ included other member rfl⟩

/-- So each of them is processed once, and what it declares is known. -/
theorem processedOnce_of_preProcessed {file registered markers : List (List Char)} {definition : Definitions}
    {headers : List IncludeFile} {tables' : Tables}
    (head : headProcess env.files env.include_path source tables.definition [] = .ok (file, definition, headers))
    (done : PreProcessed env library fuel file headers { tables with definition } tables' registered markers)
    (guards : GuardsOpen env library source tables) (first : IncludesFirst env source tables) :
    ProcessedOnce env library source tables (fuel + 1) tables' := by
  intro header reached
  have closed := guards _ _ _ head
  obtain ⟨member, defined⟩ := reached.defined head done closed first
  have visits : sourceVisits env (fuel + 1) source tables =
      preProcessVisits env (fuel + 1) file headers { tables with definition } := by
    rw [sourceVisits, head]
  constructor
  · rw [visits]
    exact List.count_eq_one_of_mem done.processes.once
      ((done.processes.visited_iff header member).mpr ⟨closed header member, defined⟩)
  · intro line inside
    obtain ⟨keys, symbols, -⟩ := done.processes.complete header member (closed header member) defined line inside
    exact ⟨keys, symbols⟩

/-- Include guards stop the recursion of `PreProcess` and `HeadProcess`, whatever the headers include. -/
theorem processSource_guarded (env : Environment) (library : HeaderLibrary env.files) (source : List (List Char))
    (tables : Tables) (fuel : ℕ) (enough : library.headers.length + 1 < fuel)
    (named : ∀ text ∈ source, ∀ path, (HeaderLine.inclusion path).Spells (headText text) →
      ∃ header ∈ library.headers, header.path = path) :
    (∃ result, (processSource env fuel source tables).run = some result) ∧
      (GuardsOpen env library source tables → IncludesFirst env source tables →
        ∀ file tables', (processSource env fuel source tables).run = some (.ok (file, tables')) →
          ProcessedOnce env library source tables fuel tables') ∧
      (Harmless env library source tables →
        ∃ file tables', (processSource env fuel source tables).run = some (.ok (file, tables'))) := by
  obtain ⟨fuel, rfl⟩ := Nat.exists_eq_succ_of_ne_zero (Nat.ne_of_gt ((Nat.zero_lt_succ _).trans enough))
  have ends : Effects.Ends (processSource env (fuel + 1) source tables) (Harmless env library source tables)
      fun done => GuardsOpen env library source tables → IncludesFirst env source tables →
        ProcessedOnce env library source tables (fuel + 1) done.2 := by
    rw [processSource]
    have heads : Effects.Ends (Nested.ofExcept (headProcess env.files env.include_path source tables.definition []))
        (Harmless env library source tables)
        fun done => headProcess env.files env.include_path source tables.definition [] = .ok done :=
      .except (fun _ => id) fun safe => by
        obtain ⟨-, -, file, definition, headers, -, -, head, -⟩ := safe
        exact ⟨_, head⟩
    refine heads.bind ?_
    rintro ⟨file, definition, headers⟩ - head
    obtain ⟨-, -, -, recorded⟩ := headProcess_recorded head
    have small : openGuards library definition < fuel :=
      (List.countP_le_length).trans_lt (Nat.lt_of_succ_lt_succ enough)
    refine (preProcess_ends (processesHeaders env library fuel) (library.recorded_header named recorded) file small).imp
      ?_ ?_
    · rintro ⟨plain, keys, file', definition', headers', registered, markers, head', registers, lines⟩
      rw [head] at head'
      cases head'
      exact ⟨plain, ⟨registered, markers, registers, fun line member => plainLine_of_equ (lines line member)⟩, keys⟩
    · rintro ⟨lines, tables'⟩ ⟨registered, markers, done⟩ guards first
      exact processedOnce_of_preProcessed head done guards first
  obtain ⟨result, ran, holds, returns⟩ := ends
  refine ⟨⟨result, ran⟩, fun guards first file tables' same => ?_, fun harmless => ?_⟩
  · exact holds _ (Option.some.inj (ran.symm.trans same)) guards first
  · obtain ⟨⟨file, tables'⟩, rfl⟩ := returns harmless
    exact ⟨file, tables', ran⟩

end Sources

/-! ## Two headers that include each other -/

/-- Two headers that include each other: one declares a replacement, the other a symbol. -/
def crossHeader (second : Bool) : GuardedHeader where
  path := bif second then "b".toList else "a".toList
  guard := bif second then "B".toList else "A".toList
  value := " 1".toList
  body :=
    bif second then [.inclusion "a".toList, .lab ["f".toList]]
    else [.inclusion "b".toList, .equ "x".toList "y".toList]
  before := []
  opening := bif second then "%ifndef B".toList else "%ifndef A".toList
  inner :=
    bif second then ["%define B 1".toList, "%include \"a\"".toList, ".lab f".toList]
    else ["%define A 1".toList, "%include \"b\"".toList, ".equ 'x', 'y'".toList]
  closing := "%endif".toList
  after := []
  named := by cases second <;> decide
  letters := by cases second <;> decide
  blank := by simp
  enters := by
    refine ⟨[], ⟨[], "%ifndef".toList, [' '], ?_⟩, by simp⟩
    cases second <;> decide
  spelled := by
    have value : SingleLine " 1".toList := by unfold SingleLine; decide
    have path (c : Char) (plain : (c != '\n' && c != '\r') = true) : SingleLine [c] := List.forall_mem_singleton.mpr plain
    cases second
    · refine .cons ⟨⟨[], "%define".toList, [' '], by decide⟩, by decide, .inl (by decide), by decide, by decide, value⟩ ?_
      refine .cons ⟨[], ⟨[], "%include".toList, [' '], by decide⟩, path 'b' rfl, by simp⟩ (.cons ?_ .nil)
      exact ⟨[], [' '], [], ⟨[], ".equ".toList, [' '], by decide⟩, by decide⟩
    · refine .cons ⟨⟨[], "%define".toList, [' '], by decide⟩, by decide, .inl (by decide), by decide, by decide, value⟩ ?_
      refine .cons ⟨[], ⟨[], "%include".toList, [' '], by decide⟩, path 'a' rfl, by simp⟩ (.cons ?_ .nil)
      exact ⟨"f".toList, [], ⟨[], ".lab".toList, [' '], by decide⟩, .single ⟨'f', [], by decide⟩, by decide⟩
  leaves := ⟨[], [], by decide⟩

def crossEnvironment : Environment :=
  { bareEnvironment with
    files := fun name =>
      if name = "a".toList then some (crossHeader false).content
      else if name = "b".toList then some (crossHeader true).content else none }

def crossLibrary : HeaderLibrary crossEnvironment.files where
  headers := [crossHeader false, crossHeader true]
  opened := by simp [crossHeader, crossEnvironment]
  closed := by simp [crossHeader, HeaderLine.includes]
  paths := by decide
  guards := by decide
  unguarded := by simp [crossHeader, HeaderLine.definitions]

/-- The source file includes the first of them. -/
def crossSource : List (List Char) := ["%include \"a\"".toList]

theorem spells_crossSource : (HeaderLine.inclusion "a".toList).Spells (headText "%include \"a\"".toList) :=
  ⟨[], ⟨[], "%include".toList, [' '], by decide⟩, by unfold SingleLine; decide, by simp⟩

theorem headProcess_crossSource :
    headProcess crossEnvironment.files crossEnvironment.include_path crossSource noTables.definition [] =
    .ok ([[]], .empty, [(crossHeader false).recorded 1]) := rfl

theorem processSource_guarded_cross : ∃ file tables',
    (processSource crossEnvironment 4 crossSource noTables).run = some (.ok (file, tables')) ∧
      ∀ header ∈ crossLibrary.headers,
        (sourceVisits crossEnvironment 4 crossSource noTables).count header.path = 1 ∧ Declared header tables' := by
  have named : ∀ text ∈ crossSource, ∀ path, (HeaderLine.inclusion path).Spells (headText text) →
      ∃ header ∈ crossLibrary.headers, header.path = path := by
    intro text member path spelled
    obtain rfl := List.mem_singleton.mp member
    exact ⟨crossHeader false, List.mem_cons_self, include_unique spells_crossSource spelled⟩
  have guards : GuardsOpen crossEnvironment crossLibrary crossSource noTables := by
    intro file definition headers head header _
    cases headProcess_crossSource.symm.trans head
    rfl
  have first : IncludesFirst crossEnvironment crossSource noTables := by
    rintro index path ⟨before, text, after, -, -, whole, place, -⟩ file definition headers registered markers - - line member
    obtain rfl : before = [] := by
      cases before with
      | nil => rfl
      | cons c before => simp [crossSource] at whole
    obtain rfl := place
    cases member
  have harmless : Harmless crossEnvironment crossLibrary crossSource noTables := by
    refine ⟨⟨rfl, ?_⟩, ?_, [[]], .empty, [(crossHeader false).recorded 1], [[]], [], headProcess_crossSource, rfl, ?_⟩
    · simp [crossLibrary, crossHeader, GuardedHeader.lines, HeaderLine.keys, Unbracketed]
    · intro key known
      cases known
    · intro line member key value spelled
      obtain rfl := List.mem_singleton.mp member
      obtain ⟨_, _, _, begins, -⟩ := spelled
      obtain ⟨c, inside, -⟩ := begins.visible (by decide) (by decide)
      cases inside
  obtain ⟨-, once, returns⟩ :=
    processSource_guarded crossEnvironment crossLibrary crossSource noTables 4 (by decide) named
  obtain ⟨file, tables', ran⟩ := returns harmless
  have source : ReachedFrom crossEnvironment crossLibrary crossSource noTables (crossHeader false) :=
    .source List.mem_cons_self ⟨[], _, [], [], _, rfl, rfl, spells_crossSource, rfl, rfl⟩
  have included : ReachedFrom crossEnvironment crossLibrary crossSource noTables (crossHeader true) :=
    source.header (List.mem_cons_of_mem _ List.mem_cons_self) (List.mem_cons_self) (List.mem_singleton_self _)
  refine ⟨file, tables', ran, ?_⟩
  intro header member
  rcases List.mem_cons.mp member with rfl | other
  · exact once guards first file tables' ran _ source
  · obtain rfl := List.mem_singleton.mp other
    exact once guards first file tables' ran _ included

/-- A header with one line behind its guard. -/
def oneLineEnvironment (line : List Char) : Environment :=
  { bareEnvironment with
    files := fun name =>
      if name = "a".toList then some ["%ifndef A".toList, "%define A".toList, line, "%endif".toList] else none }

/-- `%error` behind an `%include` line, and `%warning` in front of one, keep the header from being processed. A name with a
digit behind a letter is defined without the digit, and white space between labels becomes part of a name. -/
theorem not_processedOnce_error :
    (ReachedFrom crossEnvironment crossLibrary (crossSource ++ ["%error stop".toList]) noTables (crossHeader false) ∧
      ∀ fuel, (∃ error, (processSource crossEnvironment fuel (crossSource ++ ["%error stop".toList]) noTables).run =
          some (.error error)) ∧
        sourceVisits crossEnvironment fuel (crossSource ++ ["%error stop".toList]) noTables = []) ∧
    (ReachedFrom crossEnvironment crossLibrary ("%warning wait".toList :: crossSource) noTables (crossHeader false) ∧
      sourceVisits crossEnvironment 4 ("%warning wait".toList :: crossSource) noTables = []) ∧
    (∃ file tables', (processSource (oneLineEnvironment "%define A1 2".toList) 3 crossSource noTables).run =
        some (.ok (file, tables')) ∧ tables'.equ_replacement.contains "A1".toList = false) ∧
    ∃ file tables', (processSource (oneLineEnvironment ".lab a\x0c, b".toList) 3 crossSource noTables).run =
        some (.ok (file, tables')) ∧ isLineMarkerPresent tables'.defined_line_marker "a".toList = false := by
  have front : IncludesAt crossEnvironment (crossSource ++ ["%error stop".toList]) .empty 0 "a".toList :=
    ⟨[], _, _, [], _, rfl, rfl, spells_crossSource, rfl, rfl⟩
  have behind : IncludesAt crossEnvironment ("%warning wait".toList :: crossSource) .empty 1 "a".toList :=
    ⟨["%warning wait".toList], _, [], ["%warning wait".toList], _, rfl, rfl, spells_crossSource, rfl, rfl⟩
  exact ⟨⟨.source List.mem_cons_self front, fun fuel => ⟨⟨_, rfl⟩, rfl⟩⟩, ⟨.source List.mem_cons_self behind, rfl⟩,
    ⟨_, _, rfl, rfl⟩, _, _, rfl, rfl⟩

end Sysdarft.Coding
