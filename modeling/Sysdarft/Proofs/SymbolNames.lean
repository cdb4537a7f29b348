import Sysdarft.Proofs.DataDirectives

/-! # Symbols in data expressions

The names of an object's symbols are replaced by addresses one after the other, wherever they occur. A name has only
label characters, so every word of an expression is rewritten by itself. A word is right when no other name in it comes
first in the table.
-/

namespace Sysdarft.Coding

open Words

/-- What is made of a word. -/
def resolveRun (table : SymbolTable) (symbols : List LineMarker) (run : List Char) : List Char :=
  symbols.foldl (fun text marker =>
    Text.replaceAll marker.line_marker_name (Numerals.decimal (symbolAddress table marker.line_marker_name)) text) run

/-- The address for the name of a symbol; any other word is kept. -/
def addressRun (table : SymbolTable) (symbols : List LineMarker) (run : List Char) : List Char :=
  if (symbolNames symbols).contains run then Numerals.decimal (symbolAddress table run) else run

/-- Every name in the word is the word, or comes behind it in the table. -/
def Alone (symbols : List LineMarker) (run : List Char) : Prop :=
  ∀ before symbol after, symbols = before ++ symbol :: after → symbol.line_marker_name <:+: run →
    symbol.line_marker_name = run ∨ run ∈ symbolNames before

/-- The digits that the names of the other symbols leave of a symbol's word are by chance its address. -/
def Spelled (table : SymbolTable) (symbols : List LineMarker) (run : List Char) : Prop :=
  run ∈ symbolNames symbols ∧
    resolveRun table (symbols.filter fun symbol => symbol.line_marker_name != run) run =
      Numerals.decimal (symbolAddress table run)

section Names

variable {table : SymbolTable} {symbols : List LineMarker} {run : List Char}

theorem isRun_decimal (n : ℕ) : IsRun isLabelChar (Numerals.decimal n) := by
  intro c member
  rw [isLabelChar, Numerals.isDecimal_of_mem_decimal member, Bool.or_true]

theorem isRun_replaceAll {name text : List Char} {n : ℕ} (all : IsRun isLabelChar text) :
    IsRun isLabelChar (Text.replaceAll name (Numerals.decimal n) text) := by
  intro c member
  rcases Text.mem_replaceAll member with kept | put
  · exact all c kept
  · exact isRun_decimal n c put

theorem isRun_resolveRun (all : IsRun isLabelChar run) : IsRun isLabelChar (resolveRun table symbols run) := by
  induction symbols generalizing run with
  | nil => exact all
  | cons symbol symbols ih => exact ih (isRun_replaceAll all)

theorem isRun_addressRun (all : IsRun isLabelChar run) : IsRun isLabelChar (addressRun table symbols run) := by
  rw [addressRun]
  split_ifs
  · exact isRun_decimal _
  · exact all

/-- An expression is rewritten word by word. -/
theorem resolveSymbols_eq (labels : ∀ symbol ∈ symbols, IsLabel symbol.line_marker_name)
    (defined : ∀ symbol ∈ symbols, isDefined table symbol.line_marker_name = true) (data_string : List Char) :
    resolveSymbols table symbols data_string = .ok (mapRuns isLabelChar (resolveRun table symbols) data_string) := by
  rw [resolveSymbols]
  induction symbols generalizing data_string with
  | nil => exact congrArg Except.ok (mapRuns_id data_string).symm
  | cons symbol symbols ih =>
    obtain ⟨label, labels⟩ := List.forall_mem_cons.mp labels
    obtain ⟨here, later⟩ := List.forall_mem_cons.mp defined
    obtain ⟨ref, found⟩ := isSome_find?_of_isDefined here
    have address : Numerals.decimal ref.address = Numerals.decimal (symbolAddress table symbol.line_marker_name) := by
      rw [symbolAddress, found]
      rfl
    rw [List.foldlM_cons, found]
    refine (ih labels later _).trans (congrArg Except.ok ?_)
    rw [replaceAll_eq, replaceAll_eq_mapRuns label.isLabelChar, mapRuns_mapRuns _ fun run all => isRun_replaceAll all,
      address]
    rfl

/-- What is no digit becomes no more frequent. -/
theorem count_resolveRun_le {c : Char} (other : Numerals.isDecimal c = false) (run : List Char) :
    (resolveRun table symbols run).count c ≤ run.count c := by
  induction symbols generalizing run with
  | nil => exact le_rfl
  | cons symbol symbols ih =>
    refine (ih _).trans (Text.count_replaceAll_le (fun member => ?_) run)
    rw [Numerals.isDecimal_of_mem_decimal member] at other
    cases other

/-- A name in the word takes away a character that no address puts back. -/
theorem count_resolveRun_lt (labels : ∀ symbol ∈ symbols, IsLabel symbol.line_marker_name) {symbol : LineMarker}
    (member : symbol ∈ symbols) (occurs : symbol.line_marker_name <:+: run) :
    ∃ c, Numerals.isDecimal c = false ∧ (resolveRun table symbols run).count c < run.count c := by
  induction symbols with
  | nil => exact absurd member List.not_mem_nil
  | cons first symbols ih =>
    obtain ⟨label, labels⟩ := List.forall_mem_cons.mp labels
    by_cases here : first.line_marker_name <:+: run
    · obtain ⟨c, rest, name, other⟩ := label.first
      refine ⟨c, other, ?_⟩
      have put : (Text.replaceAll first.line_marker_name
          (Numerals.decimal (symbolAddress table first.line_marker_name)) run).count c < run.count c := by
        refine Text.count_replaceAll_lt (fun member => ?_) (name ▸ List.mem_cons_self) here
        rw [Numerals.isDecimal_of_mem_decimal member] at other
        cases other
      exact lt_of_le_of_lt (@count_resolveRun_le table symbols c other (Text.replaceAll _ _ run)) put
    · have later : symbol ∈ symbols := (List.mem_cons.mp member).resolve_left fun same => here (same ▸ occurs)
      have stays : resolveRun table (first :: symbols) run = resolveRun table symbols run := by
        rw [resolveRun, List.foldl_cons, Text.replaceAll_of_not_infix here, ← resolveRun]
      rw [stays]
      exact ih labels later

/-- A word changes exactly when a name occurs in it. -/
theorem resolveRun_kept_iff (labels : ∀ symbol ∈ symbols, IsLabel symbol.line_marker_name) :
    resolveRun table symbols run = run ↔ ∀ symbol ∈ symbols, ¬ symbol.line_marker_name <:+: run := by
  constructor
  · intro same symbol member occurs
    obtain ⟨c, -, fewer⟩ := @count_resolveRun_lt table symbols run labels symbol member occurs
    rw [same] at fewer
    exact lt_irrefl _ fewer
  · intro absent
    induction symbols with
    | nil => rfl
    | cons symbol symbols ih =>
      obtain ⟨here, absent⟩ := List.forall_mem_cons.mp absent
      rw [resolveRun, List.foldl_cons, Text.replaceAll_of_not_infix here, ← resolveRun]
      exact ih (List.forall_mem_cons.mp labels).2 absent

/-- A word that is a name becomes its address when no name before it occurs in it. -/
theorem resolveRun_symbol {before after : List LineMarker} {symbol : LineMarker}
    (labels : ∀ other ∈ before ++ symbol :: after, IsLabel other.line_marker_name)
    (absent : ∀ other ∈ before, ¬ other.line_marker_name <:+: symbol.line_marker_name) :
    resolveRun table (before ++ symbol :: after) symbol.line_marker_name =
      Numerals.decimal (symbolAddress table symbol.line_marker_name) := by
  obtain ⟨early, late⟩ := List.forall_mem_append.mp labels
  obtain ⟨label, late⟩ := List.forall_mem_cons.mp late
  have first := (@resolveRun_kept_iff table before symbol.line_marker_name early).mpr absent
  have last : resolveRun table after (Numerals.decimal (symbolAddress table symbol.line_marker_name)) =
      Numerals.decimal (symbolAddress table symbol.line_marker_name) := by
    refine (resolveRun_kept_iff late).mpr fun other member occurs => ?_
    obtain ⟨c, rest, name, digit⟩ := (late other member).first
    have inside := occurs.subset (name ▸ List.mem_cons_self)
    rw [Numerals.isDecimal_of_mem_decimal inside] at digit
    cases digit
  rw [resolveRun, List.foldl_append, List.foldl_cons]
  change resolveRun table after (Text.replaceAll _ _ (resolveRun table before symbol.line_marker_name)) = _
  rw [first, Text.replaceAll_self label.ne_nil, last]

/-- A word with no other name in front of its own in the table is resolved. -/
theorem resolveRun_alone (labels : ∀ symbol ∈ symbols, IsLabel symbol.line_marker_name) (names : (symbolNames symbols).Nodup)
    (alone : Alone symbols run) : resolveRun table symbols run = addressRun table symbols run := by
  simp only [addressRun, List.contains_iff_mem]
  split_ifs with known
  · obtain ⟨symbol, member, rfl⟩ := List.mem_map.mp known
    obtain ⟨before, after, rfl⟩ := List.append_of_mem member
    refine resolveRun_symbol labels fun other early occurs => ?_
    obtain ⟨front, middle, rfl⟩ := List.append_of_mem early
    have absent : symbol.line_marker_name ∉ symbolNames (front ++ other :: middle) := by
      rw [symbolNames, List.map_append] at names
      exact fun inside => (List.disjoint_of_nodup_append names) inside List.mem_cons_self
    rcases alone front other (middle ++ symbol :: after) (by rw [List.append_assoc, List.cons_append])
      occurs with same | before
    · exact absent (same ▸ List.mem_map_of_mem early)
    · exact absent (by rw [symbolNames, List.map_append]; exact List.mem_append_left _ before)
  · refine (resolveRun_kept_iff labels).mpr fun symbol member occurs => ?_
    obtain ⟨before, after, rfl⟩ := List.append_of_mem member
    rcases alone before symbol after rfl occurs with same | before_
    · exact known (same ▸ List.mem_map_of_mem member)
    · exact known (by rw [symbolNames, List.map_append]; exact List.mem_append_left _ before_)

/-- A symbol's word that a name before it breaks up is not found any more: the other names decide what becomes of it. -/
theorem resolveRun_broken (labels : ∀ symbol ∈ symbols, IsLabel symbol.line_marker_name)
    (names : (symbolNames symbols).Nodup) (known : run ∈ symbolNames symbols) (broken : ¬ Alone symbols run) :
    resolveRun table symbols run =
      resolveRun table (symbols.filter fun symbol => symbol.line_marker_name != run) run := by
  obtain ⟨symbol, member, rfl⟩ := List.mem_map.mp known
  obtain ⟨before, after, rfl⟩ := List.append_of_mem member
  obtain ⟨early, -⟩ := List.forall_mem_append.mp labels
  -- the name that breaks the word up stands in front of the symbol
  have inside : ∃ other ∈ before, other.line_marker_name <:+: symbol.line_marker_name := by
    by_contra none
    push Not at none
    refine broken fun front other back whole occurs => ?_
    rcases List.append_eq_append_iff.mp whole with ⟨middle, rfl, tail⟩ | ⟨middle, rfl, tail⟩
    · cases middle with
      | nil => exact .inl (congrArg LineMarker.line_marker_name (List.cons.inj tail).1).symm
      | cons next middle =>
        obtain rfl := (List.cons.inj tail).1
        refine .inr ?_
        rw [symbolNames, List.map_append]
        exact List.mem_append_right _ List.mem_cons_self
    · cases middle with
      | nil => exact .inl (congrArg LineMarker.line_marker_name (List.cons.inj tail).1)
      | cons next middle =>
        obtain rfl := (List.cons.inj tail).1
        exact absurd occurs (none other (List.mem_append_right _ List.mem_cons_self))
  obtain ⟨other, place, occurs⟩ := inside
  obtain ⟨c, -, fewer⟩ := @count_resolveRun_lt table before symbol.line_marker_name early other place occurs
  have gone : ¬ symbol.line_marker_name <:+: resolveRun table before symbol.line_marker_name :=
    fun found => absurd (found.sublist.count_le c) (not_le_of_gt fewer)
  have others : (before ++ symbol :: after).filter (fun marker => marker.line_marker_name != symbol.line_marker_name) =
      before ++ after := by
    rw [symbolNames, List.map_append, List.map_cons, List.nodup_append_comm, List.cons_append, List.nodup_cons,
      List.mem_append, not_or] at names
    have differs {marker : LineMarker} {markers : List LineMarker} (absent : symbol.line_marker_name ∉
        markers.map LineMarker.line_marker_name) (member : marker ∈ markers) :
        (marker.line_marker_name != symbol.line_marker_name) = true :=
      bne_iff_ne.mpr fun same => absent (same ▸ List.mem_map_of_mem member)
    rw [List.filter_append, List.filter_cons_of_neg (by rw [bne_self_eq_false]; decide),
      List.filter_eq_self.mpr fun marker => differs names.1.2, List.filter_eq_self.mpr fun marker => differs names.1.1]
  rw [others, resolveRun, resolveRun, List.foldl_append, List.foldl_append, List.foldl_cons]
  change resolveRun table after (Text.replaceAll _ _ (resolveRun table before _)) = resolveRun table after _
  rw [Text.replaceAll_of_not_infix gone]
  rfl

/-- A word is resolved when it is alone, or by chance. -/
theorem resolveRun_iff (labels : ∀ symbol ∈ symbols, IsLabel symbol.line_marker_name) (names : (symbolNames symbols).Nodup) :
    resolveRun table symbols run = addressRun table symbols run ↔ Alone symbols run ∨ Spelled table symbols run := by
  by_cases alone : Alone symbols run
  · exact iff_of_true (resolveRun_alone labels names alone) (.inl alone)
  · rw [or_iff_right alone, Spelled]
    by_cases known : run ∈ symbolNames symbols
    · rw [resolveRun_broken labels names known alone, addressRun, if_pos (List.contains_iff_mem.mpr known),
        and_iff_right known]
    · refine iff_of_false (fun kept => alone fun before symbol after split occurs => ?_) fun spelled => known spelled.1
      rw [addressRun, if_neg (mt List.contains_iff_mem.mp known)] at kept
      have inside : symbol ∈ symbols := split ▸ List.mem_append_right _ List.mem_cons_self
      exact absurd occurs ((resolveRun_kept_iff labels).mp kept symbol inside)

end Names

section Linking

variable {bc : Calculator} {verbose : Bool} {objects : List ObjectFile} {linked : ObjectFile}

/-- The symbols of an object that is linked are labels, and have their addresses. -/
theorem sysdarftLink_labels (compiled : ∀ object ∈ objects, ∃ env, Compiled env bc object)
    (done : sysdarftLink bc verbose objects = .ok linked) :
    ∃ table, registerSymbols objects = .ok table ∧ ∀ object ∈ objects, ∀ symbol ∈ object.symbol_table,
      isDefined table symbol.line_marker_name = true ∧ IsLabel symbol.line_marker_name := by
  obtain ⟨table, entered, -⟩ := Effects.except_bind_eq_ok.mp done
  rw [sysdarftLink_eq entered] at done
  obtain ⟨codes, each, rfl⟩ := Effects.except_map_eq_ok.mp done
  refine ⟨table, entered, fun object member symbol known => ?_⟩
  obtain ⟨code, here⟩ := Effects.except_mapM_mem each member
  obtain ⟨middle, symbols, -⟩ := Effects.except_bind_eq_ok.mp here
  have defined := (linkSymbols_ok symbols).1 symbol known
  obtain ⟨other, inside, marker, entry, same, flag, -⟩ := (registerSymbols_entered entered).mp ⟨defined, rfl⟩
  obtain ⟨env, made⟩ := compiled other inside
  exact ⟨defined, same ▸ made.linkable.labels marker entry flag⟩

/-- The expression of a data directive is rewritten word by word: a word stays when no symbol's name occurs in it and
becomes the address of its symbol when no other name in it comes first in the table, and one that is no symbol's name
is right
in no other case. -/
theorem sysdarftLink_names (compiled : ∀ object ∈ objects, ∃ env, Compiled env bc object)
    (done : sysdarftLink bc verbose objects = .ok linked) {object : ObjectFile} (member : object ∈ objects)
    (data_string : List Char) :
    ∃ table expression, registerSymbols objects = .ok table ∧
      resolveSymbols table object.symbol_table data_string = .ok expression ∧
      ((∀ run ∈ runs isLabelChar data_string, Alone object.symbol_table run) →
        expression = mapRuns isLabelChar (addressRun table object.symbol_table) data_string) ∧
      (expression = mapRuns isLabelChar (addressRun table object.symbol_table) data_string →
        ∀ run ∈ runs isLabelChar data_string, run ∉ symbolNames object.symbol_table → Alone object.symbol_table run) := by
  obtain ⟨table, entered, symbols⟩ := sysdarftLink_labels compiled done
  have defined : ∀ symbol ∈ object.symbol_table, isDefined table symbol.line_marker_name = true :=
    fun symbol known => (symbols object member symbol known).1
  have labels : ∀ symbol ∈ object.symbol_table, IsLabel symbol.line_marker_name :=
    fun symbol known => (symbols object member symbol known).2
  obtain ⟨env, made⟩ := compiled object member
  refine ⟨table, _, entered, resolveSymbols_eq labels defined data_string, fun alone => ?_, fun right run inside other => ?_⟩
  · exact mapRuns_congr fun run inside => resolveRun_alone labels made.linkable.names (alone run inside)
  · have kept := (mapRuns_inj (fun run all => isRun_resolveRun all) fun run all => isRun_addressRun all).mp right run inside
    rw [addressRun, if_neg (mt List.contains_iff_mem.mp other)] at kept
    intro before symbol after split occurs
    exact absurd occurs ((resolveRun_kept_iff labels).mp kept symbol (split ▸ List.mem_append_right _ List.mem_cons_self))

/-- In the expression that is evaluated for a data directive the words that name symbols are their addresses and the rest
is kept when every word is alone, and otherwise only by chance. -/
theorem linkedExpression_iff {before after : List ObjectFile} {object : ObjectFile} {data : DataExpression}
    (compiled : ∀ other ∈ before ++ object :: after, ∃ env, Compiled env bc other)
    (done : sysdarftLink bc verbose (before ++ object :: after) = .ok linked)
    (member : data ∈ object.data_expression_identifiers) :
    ∃ (width : Width) (table : SymbolTable) (expression output : List Char), data.data_byte_count = width.bytes ∧
      registerSymbols (before ++ object :: after) = .ok table ∧
      resolveSymbols table object.symbol_table data.data_string = .ok expression ∧
      executeBc bc (processBase16 expression) = .ok output ∧
      linked.code[(before.flatMap ObjectFile.code).length + data.data_appearance]? =
        some (dataBytes width.bytes output) ∧
      (expression = mapRuns isLabelChar (addressRun table object.symbol_table) data.data_string ↔
        ∀ run ∈ runs isLabelChar data.data_string,
          Alone object.symbol_table run ∨ Spelled table object.symbol_table run) := by
  obtain ⟨width, table, expression, output, wide, entered, resolved, calculated, found⟩ :=
    sysdarftLink_dataBytes compiled done member
  refine ⟨width, table, expression, output, wide, entered, resolved, calculated, found, ?_⟩
  have inside : object ∈ before ++ object :: after := List.mem_append_right _ List.mem_cons_self
  obtain ⟨table', entered', symbols⟩ := sysdarftLink_labels compiled done
  obtain rfl := Except.ok.inj (entered'.symm.trans entered)
  have labels : ∀ symbol ∈ object.symbol_table, IsLabel symbol.line_marker_name :=
    fun symbol known => (symbols object inside symbol known).2
  obtain rfl := Except.ok.inj
    ((resolveSymbols_eq labels (fun symbol known => (symbols object inside symbol known).1) _).symm.trans resolved)
  obtain ⟨env, made⟩ := compiled object inside
  rw [mapRuns_inj (fun run all => isRun_resolveRun all) fun run all => isRun_addressRun all]
  exact forall₂_congr fun run _ => resolveRun_iff labels made.linkable.names

end Linking

/-- The label of the loop stands for its address. -/
theorem sysdarftLink_names_loop : ∃ table, registerSymbols [loopObject] = .ok table ∧
    resolveSymbols table loopObject.symbol_table "foo + 1".toList =
      .ok (Numerals.decimal (symbolAddress table "foo".toList) ++ " + 1".toList) := by
  obtain ⟨table, expression, entered, resolved, exactly, -⟩ := @sysdarftLink_names numeralCalculator false [loopObject]
    ⟨[[0x30, 0x01, 0x64, 0xA2, 0x02, 0x64, 0, 0, 0, 0, 0, 0, 0, 0]], [⟨"foo".toList, 0, false, false, []⟩], []⟩
    (List.forall_mem_singleton.mpr ⟨bareEnvironment, compiled_loopObject⟩) rfl loopObject List.mem_cons_self "foo + 1".toList
  refine ⟨table, entered, resolved.trans (congrArg _ ?_)⟩
  have alone : ∀ run ∈ runs isLabelChar "foo + 1".toList, Alone loopObject.symbol_table run := by
    have words : ∀ run ∈ runs isLabelChar "foo + 1".toList, "foo".toList <:+: run → "foo".toList = run := by decide
    intro run member before symbol after whole occurs
    have only : symbol ∈ loopObject.symbol_table := whole ▸ List.mem_append_right _ List.mem_cons_self
    rw [List.mem_singleton.mp only] at occurs ⊢
    exact .inl (words run member occurs)
  rw [exactly alone]
  rfl

/-- Two labels with an instruction between them, and the address of the second. -/
def labelledFile (first second : String) : List (List Char) :=
  [first.toList ++ [':'], "nop".toList, second.toList ++ [':'], ".64bit_data <".toList ++ second.toList ++ ['>']]

def labelledObject (first second : String) : ObjectFile where
  code := [[0x00], List.replicate 8 0]
  symbol_table := [⟨first.toList, 0, true, false, []⟩, ⟨second.toList, 1, true, false, []⟩]
  data_expression_identifiers := [⟨1, 8, second.toList⟩]

theorem compiled_labelledObject : Compiled bareEnvironment numeralCalculator (labelledObject "b" "c0") :=
  ⟨1, labelledFile "b" "c0", [], ⟨[], 0, .empty, .empty⟩, _, _, 0, 9, rfl, rfl, rfl⟩

/-- The second label stands for its address when the name of the first is not in its own. -/
theorem linkedExpression_label : ∃ table, registerSymbols [labelledObject "b" "c0"] = .ok table ∧
    resolveSymbols table (labelledObject "b" "c0").symbol_table "c0".toList = .ok "1".toList := by
  obtain ⟨width, table, expression, output, -, entered, resolved, -, -, exactly⟩ :=
    @linkedExpression_iff numeralCalculator false ⟨[[0x00], [1, 0, 0, 0, 0, 0, 0, 0]], [], []⟩ [] []
      (labelledObject "b" "c0") ⟨1, 8, "c0".toList⟩
      (List.forall_mem_singleton.mpr ⟨bareEnvironment, compiled_labelledObject⟩) rfl List.mem_cons_self
  have alone : ∀ run ∈ runs isLabelChar "c0".toList, Alone (labelledObject "b" "c0").symbol_table run := by
    intro run member before symbol after whole occurs
    obtain rfl : run = "c0".toList := List.mem_singleton.mp (show run ∈ ["c0".toList] from member)
    have known : symbol ∈ (labelledObject "b" "c0").symbol_table := whole ▸ List.mem_append_right _ List.mem_cons_self
    rcases List.mem_pair.mp known with rfl | rfl
    · exact absurd occurs (by decide)
    · exact .inl rfl
  obtain rfl := Except.ok.inj entered
  obtain rfl := exactly.mpr fun run member => .inl (alone run member)
  exact ⟨_, rfl, resolved⟩

/-- When it is, its address is put for the part: here `b0` is read as `00`, while it stands for 1. -/
theorem not_linkedExpression_part :
    Compiled bareEnvironment numeralCalculator (labelledObject "b" "b0") ∧
      (sysdarftLink numeralCalculator false [labelledObject "b" "b0"]).map ObjectFile.code =
        .ok [[0x00], List.replicate 8 0] ∧
      ∃ table, registerSymbols [labelledObject "b" "b0"] = .ok table ∧
        resolveSymbols table (labelledObject "b" "b0").symbol_table "b0".toList = .ok "00".toList ∧
        mapRuns isLabelChar (addressRun table (labelledObject "b" "b0").symbol_table) "b0".toList = "1".toList :=
  ⟨⟨1, labelledFile "b" "b0", [], ⟨[], 0, .empty, .empty⟩, _, _, 0, 9, rfl, rfl, rfl⟩, rfl, _, rfl, rfl, rfl⟩

end Sysdarft.Coding
