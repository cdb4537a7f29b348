import Sysdarft.Library.Words
import Sysdarft.Proofs.AssembledObject

/-! # When linking fails

The table holds every defined symbol once. Then every symbol of every object is looked up, used or not, and every
recorded chunk has to contain the placeholder once. A symbol that is declared and never used is looked up as well,
so it makes linking fail when it is defined nowhere.
-/

namespace Sysdarft.Coding

/-! ## The unified table -/

section Registration

variable {table table' : SymbolTable} {symbol : LineMarker} {name : List Char}

theorem isDefined_empty (name : List Char) : isDefined .empty name = false := rfl

theorem isDefined_assign (key : List Char) (ref : Symbol) :
    isDefined (table.assign key ref) name = if name = key then ref.defined else isDefined table name := by
  rw [isDefined, OrderedMap.find?_assign]
  split_ifs with same
  · rfl
  · rfl

theorem defined_getD (table : SymbolTable) (name : List Char) :
    ((table.find? name).getD .absent).defined = isDefined table name := by
  rw [isDefined]
  cases table.find? name with
  | none => rfl
  | some ref => rfl

/-- The entry of a symbol when it is defined. -/
def SymbolTable.define (table : SymbolTable) (symbol : LineMarker) : SymbolTable :=
  table.assign symbol.line_marker_name
    { (table.find? symbol.line_marker_name).getD .absent with address := symbol.marker_position, defined := true }

/-- The entry of a symbol when it is referenced. -/
def SymbolTable.reference (table : SymbolTable) (symbol : LineMarker) : SymbolTable :=
  table.assign symbol.line_marker_name { (table.find? symbol.line_marker_name).getD .absent with referenced := true }

/-- The entries a symbol makes. -/
def SymbolTable.enter (table : SymbolTable) (symbol : LineMarker) : SymbolTable :=
  let table := if symbol.is_defined then table.define symbol else table
  if symbol.referenced then table.reference symbol else table

/-- A symbol is refused exactly when it is defined twice. -/
theorem registerSymbol_eq (table : SymbolTable) (symbol : LineMarker) :
    registerSymbol table symbol =
      if symbol.is_defined = true ∧ isDefined table symbol.line_marker_name = true then
        .error (.linker ("Multiple definitions of ".toList ++ symbol.line_marker_name))
      else .ok (table.enter symbol) := by
  rw [registerSymbol, SymbolTable.enter]
  cases symbol.is_defined with
  | false =>
    cases symbol.referenced with
    | false => rfl
    | true => rfl
  | true =>
    cases isDefined table symbol.line_marker_name with
    | true => rfl
    | false =>
      cases symbol.referenced with
      | false => rfl
      | true => rfl

theorem isDefined_define :
    isDefined (table.define symbol) name = true ↔ isDefined table name = true ∨ symbol.line_marker_name = name := by
  rw [SymbolTable.define, isDefined_assign]
  split_ifs with same
  · simp [same]
  · simp [Ne.symm same]

theorem isDefined_reference : isDefined (table.reference symbol) name = isDefined table name := by
  rw [SymbolTable.reference, isDefined_assign]
  split_ifs with same
  · rw [same, ← defined_getD]
  · rfl

theorem isDefined_enter :
    isDefined (table.enter symbol) name = true ↔
      isDefined table name = true ∨ symbol.is_defined = true ∧ symbol.line_marker_name = name := by
  have last (middle : SymbolTable) :
      isDefined (if symbol.referenced then middle.reference symbol else middle) name = isDefined middle name := by
    split_ifs
    · exact isDefined_reference
    · rfl
  rw [SymbolTable.enter, last]
  split_ifs with defined
  · rw [isDefined_define, and_iff_right defined]
  · simp [defined]

/-- The names that are defined in a list of symbols. -/
def definedNames (symbols : List LineMarker) : List (List Char) := symbolNames (symbols.filter LineMarker.is_defined)

theorem mem_definedNames {symbols : List LineMarker} :
    name ∈ definedNames symbols ↔ ∃ symbol ∈ symbols, symbol.is_defined = true ∧ symbol.line_marker_name = name := by
  simp only [definedNames, symbolNames, List.mem_map, List.mem_filter, and_assoc]

theorem definedNames_cons (symbols : List LineMarker) :
    definedNames (symbol :: symbols) =
      if symbol.is_defined then symbol.line_marker_name :: definedNames symbols else definedNames symbols := by
  rw [definedNames, List.filter_cons]
  split_ifs
  · rfl
  · rfl

/-- All symbols are entered exactly when none is defined twice. -/
theorem registerSymbol_foldlM (symbols : List LineMarker) (table : SymbolTable) :
    ((definedNames symbols).Nodup ∧ (∀ name ∈ definedNames symbols, isDefined table name = false)) ∧
        symbols.foldlM registerSymbol table = .ok (symbols.foldl SymbolTable.enter table) ∨
      ¬ ((definedNames symbols).Nodup ∧ (∀ name ∈ definedNames symbols, isDefined table name = false)) ∧
        ∃ name, symbols.foldlM registerSymbol table = .error (.linker ("Multiple definitions of ".toList ++ name)) := by
  induction symbols generalizing table with
  | nil => exact .inl ⟨⟨List.nodup_nil, by simp [definedNames, symbolNames]⟩, rfl⟩
  | cons symbol symbols ih =>
    rw [List.foldlM_cons, registerSymbol_eq, definedNames_cons]
    cases defined : symbol.is_defined with
    | false =>
      have same (name : List Char) : isDefined (table.enter symbol) name = isDefined table name := by
        rw [Bool.eq_iff_iff, isDefined_enter]
        simp [defined]
      have later := ih (table.enter symbol)
      simp only [same] at later
      exact later
    | true =>
      cases twice : isDefined table symbol.line_marker_name with
      | true =>
        refine .inr ⟨fun once => ?_, symbol.line_marker_name, rfl⟩
        have free := once.2 _ List.mem_cons_self
        rw [twice] at free
        cases free
      | false =>
        have same : ((symbol.line_marker_name :: definedNames symbols).Nodup ∧
            (∀ name ∈ symbol.line_marker_name :: definedNames symbols, isDefined table name = false)) ↔
            (definedNames symbols).Nodup ∧ (∀ name ∈ definedNames symbols, isDefined (table.enter symbol) name = false) := by
          simp only [← Bool.not_eq_true, isDefined_enter, List.nodup_cons, List.forall_mem_cons, defined, true_and, not_or]
          constructor
          · rintro ⟨⟨absent, once⟩, -, free⟩
            exact ⟨once, fun name member => ⟨free name member, fun same => absent (same ▸ member)⟩⟩
          · rintro ⟨once, free⟩
            exact ⟨⟨fun member => (free _ member).2 rfl, once⟩, by simp [twice], fun name member => (free name member).1⟩
        have later := ih (table.enter symbol)
        rw [← same] at later
        exact later

theorem isDefined_foldl (symbols : List LineMarker) (table : SymbolTable) :
    isDefined (symbols.foldl SymbolTable.enter table) name = true ↔
      isDefined table name = true ∨ name ∈ definedNames symbols := by
  induction symbols generalizing table with
  | nil => simp [definedNames, symbolNames]
  | cons symbol symbols ih =>
    rw [List.foldl_cons, ih, isDefined_enter, mem_definedNames, mem_definedNames, List.exists_mem_cons_iff, or_assoc]

end Registration

/-! ## Placeholders -/

/-- The placeholder stands in a chunk once. -/
def Placed (code : List (List Byte)) (chunk : ℕ) : Prop := countSequence (code.getD chunk []) tmpAddressHex = 1

section Placeholders

variable {name : List Char} {replacement : List Byte} {code code' : List (List Byte)} {table : SymbolTable}

theorem linkInstruction_cases (name : List Char) (replacement : List Byte) (code : List (List Byte)) (chunk : ℕ) :
    Placed code chunk ∧ (∃ bytes, linkInstruction name replacement code chunk = .ok (code.set chunk bytes)) ∨
      ¬ Placed code chunk ∧ ∃ message, linkInstruction name replacement code chunk = .error (.linker message) := by
  rw [linkInstruction]
  by_cases placed : Placed code chunk
  · exact .inl ⟨placed, _, if_neg (not_not.mpr placed)⟩
  · exact .inr ⟨placed, _, if_pos placed⟩

theorem placed_set {chunk other : ℕ} (differs : other ≠ chunk) (bytes : List Byte) :
    Placed (code.set chunk bytes) other ↔ Placed code other := by
  rw [Placed, Placed, List.getD_eq_getElem?_getD, List.getD_eq_getElem?_getD, List.getElem?_set_ne (Ne.symm differs)]

/-- The chunks of one symbol: each is looked at by itself. -/
theorem linkInstruction_foldlM {chunks : List ℕ} (once : chunks.Nodup) (code : List (List Byte)) :
    (∀ chunk ∈ chunks, Placed code chunk) ∧ (∃ code', chunks.foldlM (linkInstruction name replacement) code = .ok code' ∧
        ∀ other ∉ chunks, Placed code' other ↔ Placed code other) ∨
      ¬ (∀ chunk ∈ chunks, Placed code chunk) ∧
        ∃ message, chunks.foldlM (linkInstruction name replacement) code = .error (.linker message) := by
  induction chunks generalizing code with
  | nil => exact .inl ⟨fun chunk member => absurd member List.not_mem_nil, code, rfl, fun _ _ => Iff.rfl⟩
  | cons chunk chunks ih =>
    obtain ⟨absent, once⟩ := List.nodup_cons.mp once
    rw [List.foldlM_cons, List.forall_mem_cons]
    rcases linkInstruction_cases name replacement code chunk with ⟨placed, bytes, linked⟩ | ⟨missing, message, failed⟩
    · have same : (∀ other ∈ chunks, Placed (code.set chunk bytes) other) ↔ ∀ other ∈ chunks, Placed code other := by
        refine forall₂_congr fun other member => placed_set ?_ bytes
        rintro rfl
        exact absent member
      rw [linked]
      rcases ih once (code.set chunk bytes) with ⟨all, code', linked, frame⟩ | ⟨some_missing, message, failed⟩
      · refine .inl ⟨⟨placed, same.mp all⟩, code', linked, fun other outside => ?_⟩
        rw [List.mem_cons, not_or] at outside
        rw [frame other outside.2, placed_set outside.1]
      · exact .inr ⟨fun all => some_missing (same.mpr all.2), message, failed⟩
    · rw [failed]
      exact .inr ⟨fun all => missing all.1, message, rfl⟩

theorem linkSymbol_defined {symbol : LineMarker} (defined : isDefined table symbol.line_marker_name = true) :
    ∃ replacement, ∀ code, linkSymbol table code symbol =
      symbol.loc_it_appeared_in_cur_blk.foldlM (linkInstruction symbol.line_marker_name replacement) code := by
  rw [isDefined] at defined
  cases found : table.find? symbol.line_marker_name with
  | none =>
    rw [found] at defined
    cases defined
  | some ref =>
    rw [found] at defined
    have flag : ref.defined = true := defined
    refine ⟨encodeConstantFromUint64 ref.address, fun code => ?_⟩
    rw [linkSymbol, found]
    exact if_pos flag

theorem linkSymbol_undefined {symbol : LineMarker} (missing : ¬ isDefined table symbol.line_marker_name = true)
    (code : List (List Byte)) :
    linkSymbol table code symbol = .error (undefinedReference symbol.line_marker_name) := by
  rw [isDefined] at missing
  rw [linkSymbol]
  cases found : table.find? symbol.line_marker_name with
  | none => rfl
  | some ref =>
    rw [found] at missing
    exact if_neg missing

/-- The symbols of an object: each has to be defined, used or not, and each recorded chunk has to be right. -/
theorem linkSymbol_foldlM {symbols : List LineMarker} (once : (symbolChunks symbols).Nodup) (code : List (List Byte)) :
    ((∀ symbol ∈ symbols, isDefined table symbol.line_marker_name = true) ∧ ∀ chunk ∈ symbolChunks symbols,
      Placed code chunk) ∧
        (∃ code', symbols.foldlM (linkSymbol table) code = .ok code') ∨
      ¬ ((∀ symbol ∈ symbols, isDefined table symbol.line_marker_name = true) ∧
          ∀ chunk ∈ symbolChunks symbols, Placed code chunk) ∧
        ∃ message, symbols.foldlM (linkSymbol table) code = .error (.linker message) := by
  induction symbols generalizing code with
  | nil => exact .inl ⟨⟨by simp, by simp [symbolChunks]⟩, code, rfl⟩
  | cons symbol symbols ih =>
    rw [symbolChunks, List.flatMap_cons, ← symbolChunks] at once ⊢
    obtain ⟨here, later, apart⟩ := List.nodup_append.mp once
    rw [List.foldlM_cons, List.forall_mem_cons, List.forall_mem_append]
    by_cases defined : isDefined table symbol.line_marker_name = true
    · obtain ⟨replacement, link⟩ := linkSymbol_defined defined
      rw [link]
      rcases linkInstruction_foldlM here code with ⟨placed, code', linked, frame⟩ | ⟨missing, message, failed⟩
      · have same : (∀ chunk ∈ symbolChunks symbols, Placed code' chunk) ↔
          ∀ chunk ∈ symbolChunks symbols, Placed code chunk :=
          forall₂_congr fun chunk member => frame chunk fun first => apart chunk first chunk member rfl
        rw [linked]
        rcases ih later code' with ⟨⟨all, rest⟩, linked⟩ | ⟨missing, failed⟩
        · exact .inl ⟨⟨⟨defined, all⟩, placed, same.mp rest⟩, linked⟩
        · exact .inr ⟨fun both => missing ⟨both.1.2, same.mpr both.2.2⟩, failed⟩
      · rw [failed]
        exact .inr ⟨fun both => missing both.2.1, message, rfl⟩
    · rw [linkSymbol_undefined defined]
      exact .inr ⟨fun both => defined both.1.1, _, rfl⟩

end Placeholders

/-! ## Data -/

section Data

variable {bc : Calculator} {table : SymbolTable}

theorem isSome_find?_of_isDefined {name : List Char} (defined : isDefined table name = true) :
    ∃ ref, table.find? name = some ref := by
  rw [isDefined] at defined
  cases found : table.find? name with
  | none =>
    rw [found] at defined
    cases defined
  | some ref => exact ⟨ref, rfl⟩

theorem resolveSymbols_ok {symbols : List LineMarker}
    (defined : ∀ symbol ∈ symbols, isDefined table symbol.line_marker_name = true)
    (data_string : List Char) : ∃ expression, resolveSymbols table symbols data_string = .ok expression := by
  rw [resolveSymbols]
  induction symbols generalizing data_string with
  | nil => exact ⟨data_string, rfl⟩
  | cons symbol symbols ih =>
    obtain ⟨first, later⟩ := List.forall_mem_cons.mp defined
    obtain ⟨ref, found⟩ := isSome_find?_of_isDefined first
    rw [List.foldlM_cons, found]
    exact ih later _

/-- With all symbols defined, only the calculator fails. -/
theorem linkData_foldlM {symbols : List LineMarker}
    (defined : ∀ symbol ∈ symbols, isDefined table symbol.line_marker_name = true)
    {expressions : List DataExpression} {code : List (List Byte)} {e : BuildError}
    (failed : expressions.foldlM (linkData bc table symbols) code = .error e) : ∃ error, e = .coding error := by
  induction expressions generalizing code with
  | nil => cases failed
  | cons data expressions ih =>
    rw [List.foldlM_cons] at failed
    rcases Effects.except_bind_eq_error.mp failed with first | ⟨code', -, later⟩
    · obtain ⟨expression, resolved⟩ := resolveSymbols_ok defined data.data_string
      rw [linkData, resolved] at first
      change (coded (executeBc bc (processBase16 expression)) >>= _) = _ at first
      cases answer : executeBc bc (processBase16 expression) with
      | ok output =>
        rw [answer] at first
        cases first
      | error error =>
        rw [answer] at first
        exact ⟨error, (Except.error.inj first).symm⟩
    · exact ih later

end Data

/-! ## Linking -/

/-- An object defines a symbol. -/
def ObjectFile.Defines (object : ObjectFile) (name : List Char) : Prop := name ∈ definedNames object.symbol_table

/-- An operand of an instruction or a data expression refers to a symbol of the object. -/
def ObjectFile.Uses (object : ObjectFile) (symbol : LineMarker) : Prop :=
  symbol.loc_it_appeared_in_cur_blk ≠ [] ∨
    ∃ data ∈ object.data_expression_identifiers, symbol.line_marker_name ∈ Words.runs isLabelChar data.data_string

def DefinedTwice (objects : List ObjectFile) : Prop :=
  ∃ (name : List Char) (i j : ℕ) (first second : ObjectFile), i < j ∧ objects[i]? = some first ∧ objects[j]? = some second ∧
    first.Defines name ∧ second.Defines name

def DefinedNowhere (objects : List ObjectFile) (name : List Char) : Prop := ∀ object ∈ objects, ¬ object.Defines name

/-- The reasons for which linking is meant to fail. -/
def FailsForReason (objects : List ObjectFile) : Prop :=
  DefinedTwice objects ∨
    (∃ object ∈ objects, ∃ symbol ∈ object.symbol_table, object.Uses symbol ∧
      DefinedNowhere objects symbol.line_marker_name) ∨
    ∃ object ∈ objects, ∃ chunk ∈ symbolChunks object.symbol_table,
      1 < countSequence (object.code.getD chunk []) tmpAddressHex

section Linking

variable {bc : Calculator} {verbose : Bool} {objects : List ObjectFile}

theorem definedNames_flatMap (objects : List ObjectFile) :
    definedNames (objects.flatMap ObjectFile.symbol_table) = objects.flatMap fun object =>
      definedNames object.symbol_table := by
  rw [definedNames, symbolNames, List.filter_flatMap, List.map_flatMap]
  rfl

/-- Different names in every object: a name that is there twice is in two objects. -/
theorem nodup_definedNames_iff (names : ∀ object ∈ objects, (symbolNames object.symbol_table).Nodup) :
    (definedNames (objects.flatMap ObjectFile.symbol_table)).Nodup ↔ ¬ DefinedTwice objects := by
  rw [definedNames_flatMap, List.nodup_flatMap]
  have each : ∀ object ∈ objects, (definedNames object.symbol_table).Nodup := fun object member =>
    (names object member).sublist (List.filter_sublist.map _)
  rw [and_iff_right each, List.pairwise_iff_getElem]
  constructor
  · rintro apart ⟨name, i, j, first, second, before, atI, atJ, defines, again⟩
    obtain ⟨inside, rfl⟩ := List.getElem?_eq_some_iff.mp atI
    obtain ⟨inside', rfl⟩ := List.getElem?_eq_some_iff.mp atJ
    exact apart i j inside inside' before defines again
  · intro once i j inside inside' before name defines again
    exact once ⟨name, i, j, _, _, before, List.getElem?_eq_getElem inside, List.getElem?_eq_getElem inside', defines, again⟩

theorem isDefined_registered {name : List Char} :
    isDefined ((objects.flatMap ObjectFile.symbol_table).foldl SymbolTable.enter .empty) name = true ↔
      ¬ DefinedNowhere objects name := by
  rw [isDefined_foldl, isDefined_empty, definedNames_flatMap, List.mem_flatMap, DefinedNowhere]
  simp [ObjectFile.Defines]

/-- An object is linked when its symbols are defined and its placeholders are in place. -/
theorem linkObject_cases {table : SymbolTable} {object : ObjectFile} (once : (symbolChunks object.symbol_table).Nodup) :
    ((∀ symbol ∈ object.symbol_table, isDefined table symbol.line_marker_name = true) ∧
        ∀ chunk ∈ symbolChunks object.symbol_table, Placed object.code chunk) ∧
        (∀ e, linkObject bc table object = .error e → ∃ error, e = .coding error) ∨
      ¬ ((∀ symbol ∈ object.symbol_table, isDefined table symbol.line_marker_name = true) ∧
        ∀ chunk ∈ symbolChunks object.symbol_table, Placed object.code chunk) ∧
        ∃ message, linkObject bc table object = .error (.linker message) := by
  rcases linkSymbol_foldlM once object.code with ⟨⟨defined, placed⟩, code, linked⟩ | ⟨missing, message, failed⟩
  · refine .inl ⟨⟨defined, placed⟩, fun e error => ?_⟩
    rw [linkObject, linked] at error
    exact linkData_foldlM defined error
  · refine .inr ⟨missing, message, ?_⟩
    rw [linkObject, failed]
    rfl

/-- The symbols that a linked file keeps. -/
def linkedSymbols (verbose : Bool) (table : SymbolTable) : List LineMarker :=
  (table.entries.filter fun entry => verbose || entry.2.referenced).map fun entry =>
    ⟨entry.1, entry.2.address, false, false, []⟩

/-- With the table made, the objects are linked by themselves. -/
theorem sysdarftLink_eq {table : SymbolTable} (entered : registerSymbols objects = .ok table) :
    sysdarftLink bc verbose objects =
      (objects.mapM (linkObject bc table)).map fun code => ⟨code.flatten, linkedSymbols verbose table, []⟩ := by
  rw [sysdarftLink, entered]
  cases each : objects.mapM (linkObject bc table) with
  | ok code =>
    change (objects.mapM (linkObject bc table) >>= _) = _
    rw [each]
    rfl
  | error e =>
    change (objects.mapM (linkObject bc table) >>= _) = _
    rw [each]
    rfl

/-- Calculator failures aside, this is when linking succeeds. -/
theorem sysdarftLink_ok_iff (linkable : ∀ object ∈ objects,
      Linkable object.symbol_table object.data_expression_identifiers object.code.length)
    (calculates : ∀ error, sysdarftLink bc verbose objects ≠ .error (.coding error)) :
    (∃ linked, sysdarftLink bc verbose objects = .ok linked) ↔
      ¬ DefinedTwice objects ∧ ∀ object ∈ objects,
        (∀ symbol ∈ object.symbol_table, ¬ DefinedNowhere objects symbol.line_marker_name) ∧
        ∀ chunk ∈ symbolChunks object.symbol_table, Placed object.code chunk := by
  have once (object : ObjectFile) (member : object ∈ objects) : (symbolChunks object.symbol_table).Nodup :=
    (List.nodup_append.mp (linkable object member).once).1
  have free : ∀ name ∈ definedNames (objects.flatMap ObjectFile.symbol_table), isDefined .empty name = false :=
    fun name _ => isDefined_empty name
  rw [← nodup_definedNames_iff fun object member => (linkable object member).names]
  simp only [← isDefined_registered]
  rcases registerSymbol_foldlM (objects.flatMap ObjectFile.symbol_table) .empty with ⟨nodup, entered⟩ | ⟨twice, name, failed⟩
  · rw [and_iff_right nodup.1]
    have link := @sysdarftLink_eq bc verbose objects _ entered
    rw [link] at calculates ⊢
    constructor
    · rintro ⟨linked, done⟩ object member
      obtain ⟨code, each, -⟩ := Effects.except_map_eq_ok.mp done
      obtain ⟨output, linked⟩ := Effects.except_mapM_mem each member
      rcases linkObject_cases (once object member) with ⟨right, -⟩ | ⟨-, message, failed⟩
      · exact right
      · rw [failed] at linked
        cases linked
    · intro right
      cases each :
        objects.mapM (linkObject bc ((objects.flatMap ObjectFile.symbol_table).foldl SymbolTable.enter .empty)) with
      | ok code => exact ⟨_, rfl⟩
      | error e =>
        obtain ⟨object, member, failed⟩ := Effects.except_mapM_error each
        rcases linkObject_cases (once object member) with ⟨-, only⟩ | ⟨wrong, -⟩
        · obtain ⟨error, rfl⟩ := only e failed
          exact absurd (by rw [each]; rfl) (calculates error)
        · exact absurd (right object member) wrong
  · constructor
    · rintro ⟨linked, done⟩
      rw [sysdarftLink, registerSymbols, failed] at done
      cases done
    · exact fun right => absurd ⟨right.1, free⟩ twice

/-- Linking fails for one of the reasons it is meant to fail for, and only then, exactly when there is such a reason or
the objects have neither an idle declaration nor a chunk without a placeholder. -/
theorem sysdarftLink_fails_iff (compiled : ∀ object ∈ objects, ∃ env, Compiled env bc object)
    (calculates : ∀ error, sysdarftLink bc verbose objects ≠ .error (.coding error)) :
    ((∃ e, sysdarftLink bc verbose objects = .error e) ↔ FailsForReason objects) ↔
      FailsForReason objects ∨ ∀ object ∈ objects,
        (∀ symbol ∈ object.symbol_table, DefinedNowhere objects symbol.line_marker_name → object.Uses symbol) ∧
        ∀ chunk ∈ symbolChunks object.symbol_table, countSequence (object.code.getD chunk []) tmpAddressHex ≠ 0 := by
  have linkable (object : ObjectFile) (member : object ∈ objects) :
      Linkable object.symbol_table object.data_expression_identifiers object.code.length := by
    obtain ⟨env, compiled⟩ := compiled object member
    exact compiled.linkable
  have succeeds := sysdarftLink_ok_iff linkable calculates
  have fails : (∃ e, sysdarftLink bc verbose objects = .error e) ↔
    ¬ ∃ linked, sysdarftLink bc verbose objects = .ok linked := by
    cases sysdarftLink bc verbose objects with
    | ok linked => simp
    | error e => simp
  rw [fails, succeeds]
  constructor
  · intro claim
    by_cases reason : FailsForReason objects
    · exact .inl reason
    · obtain ⟨-, right⟩ := not_not.mp fun wrong => reason (claim.mp wrong)
      refine .inr fun object member => ⟨fun symbol entry nowhere => ?_, fun chunk recorded none => ?_⟩
      · exact absurd nowhere ((right object member).1 symbol entry)
      · have placed := (right object member).2 chunk recorded
        rw [Placed, none] at placed
        cases placed
  · intro condition
    constructor
    · intro wrong
      by_contra reason
      have regular := condition.resolve_left reason
      refine wrong ⟨fun twice => reason (.inl twice), fun object member =>
        ⟨fun symbol entry nowhere => ?_, fun chunk recorded => ?_⟩⟩
      · have used := (regular object member).1 symbol entry nowhere
        exact reason (.inr (.inl ⟨object, member, symbol, entry, used, nowhere⟩))
      · have some_there := (regular object member).2 chunk recorded
        have no_more : ¬ 1 < countSequence (object.code.getD chunk []) tmpAddressHex := fun more =>
          reason (.inr (.inr ⟨object, member, chunk, recorded, more⟩))
        rw [Placed]
        omega
    · rintro (twice | ⟨object, member, symbol, entry, -, nowhere⟩ | ⟨object, member, chunk, recorded, more⟩) ⟨once, right⟩
      · exact once twice
      · exact (right object member).1 symbol entry nowhere
      · have placed := (right object member).2 chunk recorded
        rw [Placed] at placed
        omega

/-- `foo:`, and a jump to it. -/
def loopObject : ObjectFile where
  code := [[0x30, 0x01, 0x64, 0xA2] ++ tmpAddressHex]
  symbol_table := [⟨"foo".toList, 0, true, true, [0]⟩]
  data_expression_identifiers := []

theorem compiled_loopObject : Compiled bareEnvironment numeralCalculator loopObject :=
  ⟨1, ["foo:".toList, "JMP <%CB>, <foo>".toList], [], ⟨[], 0, .empty, .empty⟩, _, _, 0, 14, rfl, rfl, rfl⟩

/-- There is no reason for which the jump to its own label does not link, and it does. -/
theorem sysdarftLink_fails_loop :
    (∃ e, sysdarftLink numeralCalculator false [loopObject] = .error e) ↔ FailsForReason [loopObject] := by
  refine (sysdarftLink_fails_iff (fun object member => ?_) fun error failed => ?_).mpr (.inr fun object member => ?_)
  · rw [List.mem_singleton.mp member]
    exact ⟨bareEnvironment, compiled_loopObject⟩
  · have linked : (sysdarftLink numeralCalculator false [loopObject]).toBool = true := rfl
    rw [failed] at linked
    cases linked
  · rw [List.mem_singleton.mp member]
    refine ⟨fun symbol entry nowhere => ?_, by decide⟩
    have defined : loopObject.Defines "foo".toList := List.mem_singleton.mpr rfl
    rw [List.mem_singleton.mp entry] at nowhere
    exact absurd defined (nowhere loopObject List.mem_cons_self)

/-- `.lab foo`, and nothing else. -/
def idleObject : ObjectFile where
  code := []
  symbol_table := [⟨"foo".toList, 0, false, false, []⟩]
  data_expression_identifiers := []

/-- A symbol that is declared and never used makes linking fail. -/
theorem not_failsForReason_idle :
    Compiled bareEnvironment numeralCalculator idleObject ∧
      (∀ error, sysdarftLink numeralCalculator false [idleObject] ≠ .error (.coding error)) ∧
      ¬ ((∃ e, sysdarftLink numeralCalculator false [idleObject] = .error e) ↔ FailsForReason [idleObject]) := by
  have failed : sysdarftLink numeralCalculator false [idleObject] = .error (undefinedReference "foo".toList) := rfl
  refine ⟨⟨1, [".lab foo".toList], [], ⟨[], 0, .empty, .empty⟩, _, _, 0, 0, rfl, rfl, rfl⟩, fun error same => ?_,
    fun claim => ?_⟩
  · rw [failed] at same
    cases same
  · rcases claim.mp ⟨_, failed⟩ with ⟨name, i, j, first, second, before, atI, atJ, -⟩ |
      ⟨object, member, symbol, entry, used, -⟩ | ⟨object, member, chunk, recorded, -⟩
    · have last := (List.getElem?_eq_some_iff.mp atJ).1
      rw [List.length_singleton] at last
      omega
    · obtain rfl := List.mem_singleton.mp member
      obtain rfl := List.mem_singleton.mp entry
      rcases used with recorded | ⟨data, expression, -⟩
      · exact recorded rfl
      · cases expression
    · obtain rfl := List.mem_singleton.mp member
      cases recorded

end Linking

end Sysdarft.Coding
