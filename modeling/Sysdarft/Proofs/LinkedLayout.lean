import Sysdarft.Proofs.LabelAddresses
import Sysdarft.Proofs.LinkErrors

/-! # Where the linker puts everything

Linking leaves every chunk as long as it is and in its place: a chunk that refers to a label gets the address for the
placeholder, a chunk of data its value, and any other chunk stays. So the address of a label is where the code behind
it begins in the linked file, counted from the origin.
-/

namespace Sysdarft.Coding

open Regex

/-! ## Chunks -/

section Chunks

variable {target replacement : List Byte}

/-- The first occurrence is replaced. -/
theorem replaceSequence_occurrence {data : List Byte} (nonempty : target ≠ []) (occurs : target <:+: data) :
    ∃ front back, data = front ++ (target ++ back) ∧ replaceSequence target replacement data = front ++
    (replacement ++ back) := by
  induction data with
  | nil => exact absurd (List.infix_nil.mp occurs) nonempty
  | cons byte data ih =>
    rw [replaceSequence]
    split_ifs with here
    · obtain ⟨back, whole⟩ := List.isPrefixOf_iff_prefix.mp here
      refine ⟨[], back, whole.symm, ?_⟩
      rw [← whole, List.drop_left]
      rfl
    · have later : target <:+: data := by
        rcases List.infix_cons_iff.mp occurs with front | later
        · exact absurd (List.isPrefixOf_iff_prefix.mpr front) here
        · exact later
      obtain ⟨front, back, rfl, replaced⟩ := ih later
      exact ⟨byte :: front, back, rfl, by rw [replaced]; rfl⟩

theorem infix_of_countFrom {sequence data : List Byte} {skip : ℕ} (positive : 0 < countFrom sequence skip data) :
    sequence <:+: data := by
  induction data generalizing skip with
  | nil =>
    rw [countFrom] at positive
    exact absurd positive (Nat.lt_irrefl 0)
  | cons byte data ih =>
    cases skip with
    | succ skip => exact (ih (by rwa [countFrom] at positive)).trans (List.suffix_cons byte data).isInfix
    | zero =>
      rw [countFrom] at positive
      split_ifs at positive with here
      · exact (List.isPrefixOf_iff_prefix.mp here).isInfix
      · exact (ih positive).trans (List.suffix_cons byte data).isInfix

theorem infix_of_countSequence {data sequence : List Byte} (positive : 0 < countSequence data sequence) :
    sequence <:+: data := by
  rw [countSequence] at positive
  split_ifs at positive
  · exact absurd positive (Nat.lt_irrefl 0)
  · exact infix_of_countFrom positive

end Chunks

/-! ## Objects -/

/-- The address of a symbol; a symbol that is defined nowhere has none. -/
def symbolAddress (table : SymbolTable) (name : List Char) : ℕ := ((table.find? name).map Symbol.address).getD 0

/-- What the linker makes of a chunk of an object. -/
inductive LinkedChunk (bc : Calculator) (table : SymbolTable) (object : ObjectFile) (index : ℕ) :
    List Byte → List Byte → Prop where
  /-- No table records the chunk. -/
  | plain {chunk : List Byte} (unused : index ∉ symbolChunks object.symbol_table)
      (undated : index ∉ object.data_expression_identifiers.map DataExpression.data_appearance) :
      LinkedChunk bc table object index chunk chunk
  /-- The only placeholder is replaced by the address of the symbol. -/
  | reference {symbol : LineMarker} {chunk : List Byte} (known : symbol ∈ object.symbol_table)
      (recorded : index ∈ symbol.loc_it_appeared_in_cur_blk) (defined : isDefined table symbol.line_marker_name = true)
      (once : countSequence chunk tmpAddressHex = 1) :
      LinkedChunk bc table object index chunk
        (replaceSequence tmpAddressHex (encodeConstantFromUint64 (symbolAddress table symbol.line_marker_name)) chunk)
  /-- The value of the expression is put in. -/
  | data {data : DataExpression} {expression processed_expression : List Char} {chunk : List Byte}
      (known : data ∈ object.data_expression_identifiers) (recorded : data.data_appearance = index)
      (resolved : resolveSymbols table object.symbol_table data.data_string = .ok expression)
      (calculated : executeBc bc (processBase16 expression) = .ok processed_expression) :
      LinkedChunk bc table object index chunk (dataBytes data.data_byte_count processed_expression)

section Objects

variable {bc : Calculator} {table : SymbolTable} {object : ObjectFile} {code code' : List (List Byte)}

/-- Every chunk that a symbol is recorded in, with the symbol. -/
def references (symbols : List LineMarker) : List (LineMarker × ℕ) :=
  symbols.flatMap fun symbol => symbol.loc_it_appeared_in_cur_blk.map fun chunk => (symbol, chunk)

theorem map_references (symbols : List LineMarker) : (references symbols).map Prod.snd = symbolChunks symbols := by
  rw [references, symbolChunks, List.map_flatMap]
  congr 1
  funext symbol
  rw [List.map_map]
  exact List.map_id _

theorem mem_references {symbols : List LineMarker} {symbol : LineMarker} {chunk : ℕ} :
    (symbol, chunk) ∈ references symbols ↔ symbol ∈ symbols ∧ chunk ∈ symbol.loc_it_appeared_in_cur_blk := by
  rw [references, List.mem_flatMap]
  constructor
  · rintro ⟨other, known, member⟩
    obtain ⟨place, inside, same⟩ := List.mem_map.mp member
    obtain ⟨rfl, rfl⟩ := Prod.mk.inj same
    exact ⟨known, inside⟩
  · rintro ⟨known, inside⟩
    exact ⟨symbol, known, List.mem_map_of_mem inside⟩

/-- One chunk of one symbol. -/
def linkReference (table : SymbolTable) (code : List (List Byte)) (entry : LineMarker × ℕ) :
    Except BuildError (List (List Byte)) :=
  linkInstruction entry.1.line_marker_name (encodeConstantFromUint64 (symbolAddress table entry.1.line_marker_name))
    code entry.2

theorem linkSymbol_ok {symbol : LineMarker} (done : linkSymbol table code symbol = .ok code') :
    isDefined table symbol.line_marker_name = true ∧
      (symbol.loc_it_appeared_in_cur_blk.map fun chunk => (symbol, chunk)).foldlM (linkReference table) code =
        .ok code' := by
  rw [linkSymbol] at done
  rw [isDefined, List.foldlM_map]
  cases found : table.find? symbol.line_marker_name with
  | none =>
    rw [found] at done
    cases done
  | some ref =>
    rw [found] at done
    dsimp only at done
    split_ifs at done with defined
    refine ⟨defined, ?_⟩
    simp only [linkReference, symbolAddress, found]
    exact done

/-- The loop over the symbols is a loop over their chunks. -/
theorem linkSymbols_ok {symbols : List LineMarker} (done : symbols.foldlM (linkSymbol table) code = .ok code') :
    (∀ symbol ∈ symbols, isDefined table symbol.line_marker_name = true) ∧
      (references symbols).foldlM (linkReference table) code = .ok code' := by
  induction symbols generalizing code with
  | nil => exact ⟨fun symbol member => absurd member List.not_mem_nil, done⟩
  | cons symbol symbols ih =>
    rw [List.foldlM_cons] at done
    obtain ⟨middle, first, done⟩ := Effects.except_bind_eq_ok.mp done
    obtain ⟨defined, here⟩ := linkSymbol_ok first
    obtain ⟨all, later⟩ := ih done
    refine ⟨List.forall_mem_cons.mpr ⟨defined, all⟩, ?_⟩
    rw [references, List.flatMap_cons, List.foldlM_append, here]
    exact later

theorem linkReference_writes (code : List (List Byte)) (entry : LineMarker × ℕ) (code' : List (List Byte))
    (done : linkReference table code entry = .ok code') :
    ∃ new, code' = code.set entry.2 new ∧ ∀ old, code[entry.2]? = some old → countSequence old tmpAddressHex = 1 ∧
      new = replaceSequence tmpAddressHex (encodeConstantFromUint64 (symbolAddress table entry.1.line_marker_name)) old := by
  rw [linkReference, linkInstruction] at done
  split_ifs at done with once
  refine ⟨_, (Except.ok.inj done).symm, fun old known => ?_⟩
  have here : code.getD entry.2 [] = old := by rw [List.getD_eq_getElem?_getD, known, Option.getD_some]
  rw [here] at once ⊢
  exact ⟨not_not.mp once, rfl⟩

theorem linkData_writes {symbols : List LineMarker} (code : List (List Byte)) (data : DataExpression)
    (code' : List (List Byte))
    (done : linkData bc table symbols code data = .ok code') :
    ∃ new, code' = code.set data.data_appearance new ∧ ∀ old, code[data.data_appearance]? = some old →
      ∃ expression processed_expression, resolveSymbols table symbols data.data_string = .ok expression ∧
        executeBc bc (processBase16 expression) = .ok processed_expression ∧
        new = dataBytes data.data_byte_count processed_expression := by
  obtain ⟨expression, resolved, done⟩ := Effects.except_bind_eq_ok.mp done
  obtain ⟨processed_expression, calculated, same⟩ := Effects.except_bind_eq_ok.mp done
  exact ⟨_, (Except.ok.inj same).symm, fun _ _ =>
    ⟨expression, processed_expression, resolved, Effects.except_mapError_eq_ok.mp calculated, rfl⟩⟩

/-- Every chunk of an object is linked by itself. -/
theorem linkObject_chunks (linkable : Linkable object.symbol_table object.data_expression_identifiers object.code.length)
    (done : linkObject bc table object = .ok code) :
    code.length = object.code.length ∧ ∀ index chunk, object.code[index]? = some chunk →
      ∃ linked, code[index]? = some linked ∧ LinkedChunk bc table object index chunk linked := by
  obtain ⟨middle, symbols, datas⟩ := Effects.except_bind_eq_ok.mp done
  obtain ⟨defined, referenced⟩ := linkSymbols_ok symbols
  obtain ⟨onceSymbols, onceData, apart⟩ := List.nodup_append.mp linkable.once
  obtain ⟨length, others, each⟩ :=
    Effects.except_foldlM_writes (@linkReference_writes table) (by rwa [map_references]) referenced
  obtain ⟨length', others', each'⟩ := Effects.except_foldlM_writes linkData_writes onceData datas
  rw [map_references] at others
  refine ⟨length'.trans length, fun index chunk known => ?_⟩
  by_cases inData : index ∈ object.data_expression_identifiers.map DataExpression.data_appearance
  · obtain ⟨data, member, rfl⟩ := List.mem_map.mp inData
    have outside : data.data_appearance ∉ symbolChunks object.symbol_table := fun inside => apart _ inside _ inData rfl
    obtain ⟨linked, place, expression, processed, resolved, calculated, rfl⟩ :=
      each' data member chunk ((others _ outside).trans known)
    exact ⟨_, place, .data member rfl resolved calculated⟩
  · by_cases inSymbols : index ∈ symbolChunks object.symbol_table
    · obtain ⟨symbol, member, inside⟩ := List.mem_flatMap.mp inSymbols
      obtain ⟨linked, place, once, rfl⟩ := each (symbol, index) (mem_references.mpr ⟨member, inside⟩) chunk known
      exact ⟨_, (others' _ inData).trans place, .reference member inside (defined symbol member) once⟩
    · exact ⟨chunk, (others' _ inData).trans ((others _ inSymbols).trans known), .plain inSymbols inData⟩

end Objects

/-- Linking keeps the size of a chunk. -/
theorem LinkedChunk.length {bc : Calculator} {table : SymbolTable} {object : ObjectFile} {index : ℕ}
    {chunk linked : List Byte}
    (here : LinkedChunk bc table object index chunk linked) (known : object.code[index]? = some chunk)
    (blank : Reserved object.code object.data_expression_identifiers) : linked.length = chunk.length := by
  cases here with
  | plain => rfl
  | reference symbol recorded defined once =>
    obtain ⟨front, back, rfl, replaced⟩ :=
      @replaceSequence_occurrence tmpAddressHex _ _ (List.cons_ne_nil _ _)
        (infix_of_countSequence (by rw [once]; exact Nat.one_pos))
    rw [replaced, List.length_append, List.length_append, List.length_append, List.length_append]
    rfl
  | @data data expression processed_expression chunk member recorded =>
    have zeros := blank data member
    rw [recorded, known] at zeros
    rw [Option.some.inj zeros, List.length_replicate, dataBytes]
    exact LittleEndian.length_bytes _ _

/-- A chunk of data gets its value. -/
theorem LinkedChunk.of_data {bc : Calculator} {table : SymbolTable} {object : ObjectFile} {data : DataExpression}
    {chunk linked : List Byte} (here : LinkedChunk bc table object data.data_appearance chunk linked)
    (once : (symbolChunks object.symbol_table ++
      object.data_expression_identifiers.map DataExpression.data_appearance).Nodup)
    (member : data ∈ object.data_expression_identifiers) :
    ∃ expression processed_expression, resolveSymbols table object.symbol_table data.data_string = .ok expression ∧
      executeBc bc (processBase16 expression) = .ok processed_expression ∧
      linked = dataBytes data.data_byte_count processed_expression := by
  obtain ⟨-, different, apart⟩ := List.nodup_append.mp once
  have inData := List.mem_map_of_mem (f := DataExpression.data_appearance) member
  cases here with
  | plain unused undated => exact absurd inData undated
  | @reference symbol chunk known recorded =>
    exact absurd rfl (apart _ (List.mem_flatMap.mpr ⟨symbol, known, recorded⟩) _ inData)
  | @data other expression processed_expression chunk known recorded resolved calculated =>
    obtain rfl := List.inj_on_of_nodup_map different known member recorded
    exact ⟨expression, processed_expression, resolved, calculated, rfl⟩

/-! ## Addresses -/

section Addresses

variable {table table' : SymbolTable} {symbol : LineMarker} {name : List Char} {position : ℕ}

theorem addressOf_assign (key : List Char) (ref : Symbol) :
    symbolAddress (table.assign key ref) name = if name = key then ref.address else symbolAddress table name := by
  rw [symbolAddress, OrderedMap.find?_assign]
  split_ifs with same
  · rfl
  · rfl

theorem address_getD (table : SymbolTable) (name : List Char) :
    ((table.find? name).getD .absent).address = symbolAddress table name := by
  rw [symbolAddress]
  cases table.find? name with
  | none => rfl
  | some ref => rfl

theorem addressOf_reference : symbolAddress (table.reference symbol) name = symbolAddress table name := by
  rw [SymbolTable.reference, addressOf_assign]
  split_ifs with same
  · rw [same, ← address_getD]
  · rfl

theorem addressOf_enter : symbolAddress (table.enter symbol) name =
    if symbol.is_defined = true ∧ symbol.line_marker_name =
      name then symbol.marker_position else symbolAddress table name := by
  have last (middle : SymbolTable) :
      symbolAddress (if symbol.referenced then middle.reference symbol else middle) name = symbolAddress middle name := by
    split_ifs
    · exact addressOf_reference
    · rfl
  rw [SymbolTable.enter, last]
  cases symbol.is_defined with
  | false => rw [if_neg Bool.false_ne_true, if_neg fun both => Bool.false_ne_true both.1]
  | true =>
    rw [if_pos rfl, SymbolTable.define, addressOf_assign]
    exact if_congr (by simp [eq_comm]) rfl rfl

/-- What is entered is defined with its address, and what is defined keeps its address. -/
theorem registerSymbol_entered (done : registerSymbol table symbol = .ok table') :
    isDefined table' name = true ∧ symbolAddress table' name = position ↔
      (isDefined table name = true ∧ symbolAddress table name = position) ∨ symbol.line_marker_name = name ∧
        symbol.is_defined = true ∧
        symbol.marker_position = position := by
  rw [registerSymbol_eq] at done
  split_ifs at done with twice
  obtain rfl := Except.ok.inj done
  rw [isDefined_enter, addressOf_enter]
  by_cases here : symbol.is_defined = true ∧ symbol.line_marker_name = name
  · obtain ⟨defined, rfl⟩ := here
    rw [if_pos ⟨defined, rfl⟩]
    have free : ¬ isDefined table symbol.line_marker_name = true := fun before => twice ⟨defined, before⟩
    simp [defined, free]
  · rw [if_neg here, or_iff_left here]
    exact (or_iff_left fun entry => here ⟨entry.2.1, entry.1⟩).symm

theorem registerSymbols_entered {objects : List ObjectFile} (done : registerSymbols objects = .ok table) :
    isDefined table name = true ∧ symbolAddress table name = position ↔
      ∃ object ∈ objects, Defines object.symbol_table name position := by
  have entered : ∀ {symbols : List LineMarker} {before table : SymbolTable}, symbols.foldlM registerSymbol before =
    .ok table →
      (isDefined table name = true ∧ symbolAddress table name = position ↔
        (isDefined before name = true ∧ symbolAddress before name = position) ∨ Defines symbols name position) := by
    intro symbols
    induction symbols with
    | nil =>
      intro before table done
      obtain rfl := Except.ok.inj done
      exact (or_iff_left defines_nil).symm
    | cons symbol symbols ih =>
      intro before table done
      rw [List.foldlM_cons] at done
      obtain ⟨middle, first, done⟩ := Effects.except_bind_eq_ok.mp done
      rw [ih done, registerSymbol_entered first, defines_cons, or_assoc]
  rw [entered done, or_iff_right fun before => by cases before.1]
  constructor
  · rintro ⟨marker, member, found⟩
    obtain ⟨object, known, inside⟩ := List.mem_flatMap.mp member
    exact ⟨object, known, marker, inside, found⟩
  · rintro ⟨object, known, marker, inside, found⟩
    exact ⟨marker, List.mem_flatMap.mpr ⟨object, known, inside⟩, found⟩

end Addresses

/-! ## The whole file -/

/-- How the linked file is laid out. -/
structure Laid (bc : Calculator) (org : ℕ) (files : List FileAttr) (objects : List ObjectFile) (table : SymbolTable)
    (code : List (List Byte)) : Prop where
  /-- Chunks stay in order, and as long as they are. -/
  sizes : code.map List.length = (objects.flatMap ObjectFile.code).map List.length
  /-- The symbols are the labels. -/
  symbols : ∀ name position, isDefined table name = true ∧ symbolAddress table name = position ↔
    ∃ chunks, LabelAt bc org files name chunks position
  /-- A label is where the chunks before it end. -/
  addresses : ∀ name chunks position, LabelAt bc org files name chunks position →
    chunks.length ≤ code.length ∧ position = (org + codeSize (code.take chunks.length)) % 2 ^ 64
  /-- Every chunk is linked. -/
  chunks : ∀ before object after front chunk back, objects = before ++ object :: after →
    object.code = front ++ chunk :: back →
    ∃ linked, code[(before.flatMap ObjectFile.code).length + front.length]? = some linked ∧
      LinkedChunk bc table object front.length chunk linked

section Files

variable {bc : Calculator} {org behind : ℕ} {verbose : Bool} {files : List FileAttr} {objects : List ObjectFile}
    {table : SymbolTable}
  {linked : ObjectFile} {codes : List (List (List Byte))}

theorem linkObject_sizes {object : ObjectFile} {code : List (List Byte)} (done : linkObject bc table object = .ok code)
    (linkable : Linkable object.symbol_table object.data_expression_identifiers object.code.length)
    (blank : Reserved object.code object.data_expression_identifiers) :
    code.map List.length = object.code.map List.length := by
  obtain ⟨length, each⟩ := linkObject_chunks linkable done
  refine List.ext_getElem? fun index => ?_
  rw [List.getElem?_map, List.getElem?_map]
  cases known : object.code[index]? with
  | none => rw [List.getElem?_eq_none (by rw [length]; exact List.getElem?_eq_none_iff.mp known)]
  | some chunk =>
    obtain ⟨linked, here, relation⟩ := each index chunk known
    rw [here, Option.map_some, Option.map_some, relation.length known blank]

theorem linkObjects_sizes (done : objects.mapM (linkObject bc table) = .ok codes)
    (linkable : ∀ object ∈ objects, Linkable object.symbol_table object.data_expression_identifiers object.code.length)
    (blank : ∀ object ∈ objects, Reserved object.code object.data_expression_identifiers) :
    codes.flatten.map List.length = (objects.flatMap ObjectFile.code).map List.length := by
  have each := Effects.except_mapM_eq_ok.mp done
  clear done
  induction each with
  | nil => rfl
  | cons first later ih =>
    obtain ⟨linkable, linkables⟩ := List.forall_mem_cons.mp linkable
    obtain ⟨blank, blanks⟩ := List.forall_mem_cons.mp blank
    rw [List.flatten_cons, List.flatMap_cons, List.map_append, List.map_append, linkObject_sizes first linkable blank,
      ih linkables blanks]

/-- Every object of a build is one of the files, assembled. -/
theorem assembleFiles_object (done : assembleFiles bc org files = .ok (objects, behind)) {object : ObjectFile}
    (member : object ∈ objects) :
    ∃ file ∈ files, ∃ origin position, sysdarftAssemble bc file.file origin file.symbol_table = .ok (object, position) := by
  induction files generalizing org objects with
  | nil =>
    obtain ⟨rfl, -⟩ := Prod.mk.inj (Except.ok.inj done)
    exact absurd member List.not_mem_nil
  | cons file files ih =>
    obtain ⟨first, position, later, assembled, rest, rfl⟩ := assembleFiles_cons.mp done
    rcases List.mem_cons.mp member with rfl | member
    · exact ⟨file, List.mem_cons_self, org, position, assembled⟩
    · obtain ⟨file, known, found⟩ := ih rest member
      exact ⟨file, List.mem_cons_of_mem _ known, found⟩

/-- Where the linker puts a chunk. -/
theorem sysdarftLink_chunk {before after : List ObjectFile} {object : ObjectFile} {front back : List (List Byte)}
    {chunk : List Byte}
    (linkable : ∀ other ∈ before ++ object :: after,
      Linkable other.symbol_table other.data_expression_identifiers other.code.length)
    (blank : ∀ other ∈ before ++ object :: after, Reserved other.code other.data_expression_identifiers)
    (each : (before ++ object :: after).mapM (linkObject bc table) = .ok codes)
    (split : object.code = front ++ chunk :: back) :
    ∃ linked, codes.flatten[(before.flatMap ObjectFile.code).length + front.length]? = some linked ∧
      LinkedChunk bc table object front.length chunk linked := by
  obtain ⟨first, code, last, rfl, early, here⟩ := Effects.except_mapM_split each
  have inside : object ∈ before ++ object :: after := List.mem_append_right _ List.mem_cons_self
  have place : object.code[front.length]? = some chunk := by
    rw [split, List.getElem?_append_right le_rfl, Nat.sub_self]
    rfl
  obtain ⟨linked, found, relation⟩ := (linkObject_chunks (linkable object inside) here).2 front.length chunk place
  have sizes := linkObjects_sizes early (fun object member => linkable object (List.mem_append_left _ member))
    fun object member => blank object (List.mem_append_left _ member)
  have length := congrArg List.length sizes
  rw [List.length_map, List.length_map] at length
  refine ⟨linked, ?_, relation⟩
  rw [List.flatten_append, List.flatten_cons, ← length, List.getElem?_append_right (Nat.le_add_right _ _),
    Nat.add_sub_cancel_left,
    List.getElem?_append_left (List.getElem?_eq_some_iff.mp found).1, found]

theorem Compiled.blank {env : Environment} {object : ObjectFile} (compiled : Compiled env bc object) :
    Reserved object.code object.data_expression_identifiers := by
  obtain ⟨_, _, _, _, _, _, _, _, -, -, assembled⟩ := compiled
  exact blank_sysdarftAssemble assembled

theorem sysdarftLink_laid (undefined : ∀ file ∈ files, Undefined file.symbol_table)
    (compiled : ∀ object ∈ objects, ∃ env, Compiled env bc object)
    (assembled : assembleFiles bc org files = .ok (objects, behind)) (done : sysdarftLink bc verbose objects = .ok linked) :
    ∃ table, Laid bc org files objects table linked.code := by
  obtain ⟨table, entered, -⟩ := Effects.except_bind_eq_ok.mp done
  rw [sysdarftLink_eq entered] at done
  obtain ⟨codes, each, rfl⟩ := Effects.except_map_eq_ok.mp done
  have linkable (object : ObjectFile) (member : object ∈ objects) :
      Linkable object.symbol_table object.data_expression_identifiers object.code.length := by
    obtain ⟨env, made⟩ := compiled object member
    exact made.linkable
  have blank (object : ObjectFile) (member : object ∈ objects) :
    Reserved object.code object.data_expression_identifiers := by
    obtain ⟨env, made⟩ := compiled object member
    exact made.blank
  have sizes := linkObjects_sizes each linkable blank
  refine ⟨table, sizes, fun name position => ?_, fun name chunks position found => ?_, ?_⟩
  · rw [registerSymbols_entered entered]
    exact defines_assembleFiles undefined assembled
  · obtain ⟨front, place⟩ := found.front assembled
    have length := congrArg List.length sizes
    rw [List.length_map, List.length_map] at length
    refine ⟨length ▸ front.length_le, ?_⟩
    rw [place, codeSize, codeSize, List.map_take, sizes, ← List.map_take, ← List.prefix_iff_eq_take.mp front]
  · rintro before object after front chunk back rfl split
    exact sysdarftLink_chunk linkable blank each split

end Files

/-! ## The driver -/

/-- A file that the second stage made. -/
def Preprocessed (env : Environment) (file : FileAttr) : Prop :=
  ∃ fuel source headers tables tables', tables.defined_line_marker = [] ∧
    (preProcess env fuel source headers tables).run = some (.ok (file.file, tables')) ∧
      file.symbol_table = tables'.defined_line_marker

/-- A build that succeeds. -/
structure Build (env : Environment) (bc : Calculator) (verbose : Bool) (org : ℕ) (files : List FileAttr)
    (objects : List ObjectFile)
    (linked : ObjectFile) : Prop where
  preprocessed : ∀ file ∈ files, Preprocessed env file
  assembled : ∃ behind, assembleFiles bc org files = .ok (objects, behind)
  link : sysdarftLink bc verbose objects = .ok linked

section Driver

variable {env : Environment} {bc : Calculator} {verbose : Bool} {fuel org org' : ℕ} {source_files : List (List Char)}
  {compile_mode : CompilationMode} {file : FileAttr} {files files' : List FileAttr} {image : List Byte}

theorem Preprocessed.undefined (made : Preprocessed env file) : Undefined file.symbol_table := by
  obtain ⟨fuel, source, headers, tables, tables', new, ran, same⟩ := made
  rw [same]
  exact preProcess_rule undefined_declareMarker ran (by rw [new]; exact ⟨List.nodup_nil, by simp⟩)

theorem Preprocessed.compiled {object : ObjectFile} {origin position : ℕ} (made : Preprocessed env file)
    (done : sysdarftAssemble bc file.file origin file.symbol_table = .ok (object, position)) : Compiled env bc object := by
  obtain ⟨fuel, source, headers, tables, tables', new, ran, same⟩ := made
  exact ⟨fuel, source, headers, tables, file.file, tables', origin, position, new, ran, same ▸ done⟩

theorem readFile_new {source_file : List Char} (done : readFile env.files source_file = .ok file) :
    file.symbol_table = [] := by
  rw [readFile] at done
  split at done
  · obtain rfl := Except.ok.inj done
    rfl
  · cases done

theorem headFile_symbols {file' : FileAttr} (done : headFile env file = .ok file') :
    file'.symbol_table = file.symbol_table := by
  obtain ⟨parts, -, rfl⟩ := Effects.except_map_eq_ok.mp (Effects.except_mapError_eq_ok.mp done)
  rfl

theorem preProcessEach_made (new : ∀ file ∈ files, file.symbol_table = [])
    (done : (preProcessEach env fuel org files).run = some (.ok (files', org'))) :
    ∀ file ∈ files', Preprocessed env file := by
  induction files generalizing org files' with
  | nil =>
    obtain ⟨rfl, -⟩ := Prod.mk.inj (Effects.nested_pure_eq_ok.mp done)
    exact fun file member => absurd member List.not_mem_nil
  | cons file files ih =>
    obtain ⟨⟨made, middle⟩, first, done⟩ := Effects.nested_bind_eq_ok.mp done
    obtain ⟨⟨later, behind⟩, rest, same⟩ := Effects.nested_bind_eq_ok.mp done
    obtain ⟨rfl, rfl⟩ := Prod.mk.inj (Effects.nested_pure_eq_ok.mp same)
    obtain ⟨fresh, others⟩ := List.forall_mem_cons.mp new
    refine List.forall_mem_cons.mpr ⟨?_, ih others rest⟩
    obtain ⟨⟨lines, tables⟩, ran, same⟩ := Effects.nested_bind_eq_ok.mp (Effects.nested_adapt_eq_ok.mp first)
    obtain ⟨rfl, -⟩ := Prod.mk.inj (Effects.nested_pure_eq_ok.mp same)
    exact ⟨fuel, file.file, file.header_files, _, tables, fresh, ran, rfl⟩

theorem Build.laid (build : Build env bc verbose org files objects linked) :
    ∃ table, Laid bc org files objects table linked.code := by
  obtain ⟨behind, assembled⟩ := build.assembled
  refine sysdarftLink_laid (fun file member => (build.preprocessed file member).undefined) (fun object member =>
    ?_) assembled build.link
  obtain ⟨file, known, origin, position, here⟩ := assembleFiles_object assembled member
  exact ⟨env, (build.preprocessed file known).compiled here⟩

theorem compileToBinary_build
    (done : (compileToBinary env bc verbose fuel source_files compile_mode).run = some (.ok image)) :
    ∃ org files objects linked, Build env bc verbose org files objects linked ∧ image = linkedWrite linked compile_mode := by
  obtain ⟨sources, read, done⟩ := Effects.nested_bind_eq_ok.mp done
  obtain ⟨⟨files, org⟩, preprocessed, done⟩ := Effects.nested_bind_eq_ok.mp done
  obtain ⟨⟨objects, behind⟩, assembled, done⟩ := Effects.nested_bind_eq_ok.mp done
  obtain ⟨linked, link, same⟩ := Effects.nested_bind_eq_ok.mp done
  obtain rfl := Effects.nested_pure_eq_ok.mp same
  obtain ⟨heads, head, each⟩ := Effects.nested_bind_eq_ok.mp preprocessed
  have read_ok : readFiles env.files source_files = .ok sources := Option.some.inj read
  have head_ok : sources.mapM (headFile env) = .ok heads := Option.some.inj head
  have assembled_ok : assembleFiles bc org files = .ok (objects, behind) := Option.some.inj assembled
  have link_ok : sysdarftLink bc verbose objects = .ok linked := Option.some.inj link
  have made : ∀ file ∈ files, Preprocessed env file := by
    refine preProcessEach_made (fun file member => ?_) each
    obtain ⟨source, known, headed⟩ := Effects.except_mapM_output head_ok member
    obtain ⟨name, -, opened⟩ := Effects.except_mapM_output read_ok known
    rw [headFile_symbols headed, readFile_new opened]
  exact ⟨org, files, objects, linked, ⟨made, ⟨behind, assembled_ok⟩, link_ok⟩, rfl⟩

/-- What a build writes is laid out by the addresses of the labels. -/
theorem compileToBinary_laid
    (done : (compileToBinary env bc verbose fuel source_files compile_mode).run = some (.ok image)) :
    ∃ org files objects linked table, Build env bc verbose org files objects linked ∧
      image = linkedWrite linked compile_mode ∧
      Laid bc org files objects table linked.code := by
  obtain ⟨org, files, objects, linked, build, written⟩ := compileToBinary_build done
  obtain ⟨table, laid⟩ := build.laid
  exact ⟨org, files, objects, linked, table, build, written, laid⟩

end Driver

/-! ## Two files -/

/-- A jump to a label of the other file, which holds its own address. -/
def jumpFiles : FileSystem := fun name =>
  if name = "a".toList then some [".org 16".toList, ".lab foo".toList, "JMP <%CB>, <foo>".toList]
  else if name = "b".toList then some ["foo:".toList, ".64bit_data <foo>".toList]
  else none

def jumpEnvironment : Environment := { bareEnvironment with files := jumpFiles }

/-- The file behind it begins at 30. -/
def jumpImage : List Byte :=
  [0x30, 0x01, 0x64, 0xa2, 0x02, 0x64, 0x1e, 0x00, 0x00, 0x00, 0x00, 0x00, 0x00, 0x00, 0x1e, 0x00, 0x00, 0x00, 0x00,
    0x00, 0x00, 0x00]

theorem compileToBinary_laid_jump :
    ∃ org files objects linked table, Build jumpEnvironment numeralCalculator false org files objects linked ∧
      jumpImage = linkedWrite linked .bin ∧ Laid numeralCalculator org files objects table linked.code :=
  @compileToBinary_laid jumpEnvironment numeralCalculator false 1 ["a".toList, "b".toList] .bin jumpImage rfl

end Sysdarft.Coding
