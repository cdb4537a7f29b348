import Sysdarft.Coding.ExecutableFile
import Sysdarft.Library.Effects

/-! # Reading back an executable file

The length of a name is written in 16 bits, and the symbols are read into a map from addresses. So a file reads
back when no name is too long and no two names share an address.
-/

namespace Sysdarft.Coding

/-- What the types of the source can hold: 64-bit counts and addresses, and names of bytes. -/
structure ObjectFile.Holds (object : ObjectFile) : Prop where
  count : object.symbol_table.length < 2 ^ 64
  positions : ∀ symbol ∈ object.symbol_table, symbol.marker_position < 2 ^ 64
  characters : ∀ symbol ∈ object.symbol_table, ∀ c ∈ symbol.line_marker_name, c.toNat < 256

/-- The file reads back: every symbol of the object, and exactly its code. -/
def RoundTrips (object : ObjectFile) (compile_mode asked : CompilationMode) : Prop :=
  ∃ symbols, popHeader (linkedWrite object compile_mode) asked = .ok (symbols, object.code.flatten) ∧
    ∀ symbol ∈ object.symbol_table, symbols.find? symbol.marker_position = some symbol.line_marker_name

/-! ## Numbers and names -/

section Pieces

variable {vec rest : List Byte}

theorem popNumFromVec_bytes {size number : ℕ} (fits : number < 256 ^ size) (rest : List Byte) :
    popNumFromVec size (LittleEndian.bytes size number ++ rest) = .ok (number, rest) := by
  have long : ¬ (LittleEndian.bytes size number ++ rest).length < size := by
    rw [List.length_append, LittleEndian.length_bytes]
    omega
  have front : (LittleEndian.bytes size number ++ rest).take size = LittleEndian.bytes size number :=
    List.take_left' (LittleEndian.length_bytes size number)
  have back : (LittleEndian.bytes size number ++ rest).drop size = rest :=
    List.drop_left' (LittleEndian.length_bytes size number)
  rw [popNumFromVec, if_neg long, front, back, LittleEndian.value_bytes, Nat.mod_eq_of_lt fits]

theorem popNumFromVec_lt {size number : ℕ} (popped : popNumFromVec size vec = .ok (number, rest)) : number < 256 ^ size := by
  rw [popNumFromVec] at popped
  split_ifs at popped with short
  obtain ⟨rfl, -⟩ := Prod.mk.inj (Except.ok.inj popped)
  have length : (vec.take size).length = size := List.length_take_of_le (not_lt.mp short)
  have bound := LittleEndian.value_lt (vec.take size)
  rwa [length] at bound

theorem stringBytes_length (name : List Char) : (stringBytes name).length = name.length := List.length_map ..

/-- Characters that are bytes are read back. -/
theorem stringBytes_chars {name : List Char} (characters : ∀ c ∈ name, c.toNat < 256) :
    (stringBytes name).map (fun byte => Char.ofNat byte.toNat) = name := by
  rw [stringBytes, List.map_map]
  refine (List.map_congr_left fun c member => ?_).trans (List.map_id name)
  have small : (BitVec.ofNat 8 c.toNat).toNat = c.toNat := by
    rw [BitVec.toNat_ofNat]
    exact Nat.mod_eq_of_lt (characters c member)
  rw [Function.comp_apply, small, Char.ofNat_toNat, id]

theorem popStrFromVec_name {name : List Char} (short : name.length < 2 ^ 16) (characters : ∀ c ∈ name, c.toNat < 256)
    (rest : List Byte) :
    popStrFromVec (LittleEndian.bytes 2 name.length ++ (stringBytes name ++ rest)) = .ok (name, rest) := by
  have long : ¬ (stringBytes name ++ rest).length < name.length := by
    rw [List.length_append, stringBytes_length]
    omega
  rw [popStrFromVec, popNumFromVec_bytes short, Effects.except_ok_bind]
  dsimp only
  rw [if_neg long, List.take_left' (stringBytes_length name), List.drop_left' (stringBytes_length name),
    stringBytes_chars characters]
  rfl

/-- A name that is read is short. -/
theorem popStrFromVec_lt {name : List Char} (popped : popStrFromVec vec = .ok (name, rest)) : name.length < 2 ^ 16 := by
  rw [popStrFromVec] at popped
  obtain ⟨⟨len, behind⟩, counted, popped⟩ := Effects.except_bind_eq_ok.mp popped
  have bound : len < 2 ^ 16 := popNumFromVec_lt counted
  dsimp only at popped
  split_ifs at popped with missing
  obtain ⟨rfl, -⟩ := Prod.mk.inj (Except.ok.inj popped)
  rw [List.length_map]
  exact (List.length_take_le ..).trans_lt bound

end Pieces

/-! ## Entries -/

section Entries

variable {symbols symbols' : OrderedMap ℕ (List Char)} {vec rest : List Byte}

/-- An entry of the map for a symbol. -/
def symbolEntry (symbol : LineMarker) : ℕ × List Char := (symbol.marker_position, symbol.line_marker_name)

theorem popEntries_flatMap {markers : List LineMarker} (short : ∀ symbol ∈ markers, symbol.line_marker_name.length < 2 ^ 16)
    (positions : ∀ symbol ∈ markers, symbol.marker_position < 2 ^ 64)
    (characters : ∀ symbol ∈ markers, ∀ c ∈ symbol.line_marker_name, c.toNat < 256) (symbols : OrderedMap ℕ (List Char))
    (rest : List Byte) :
    popEntries markers.length symbols (markers.flatMap symbolTableEntry ++ rest) =
      .ok ((markers.map symbolEntry).foldl (fun map entry => map.emplace entry.1 entry.2) symbols, rest) := by
  induction markers generalizing symbols with
  | nil => rfl
  | cons symbol markers ih =>
    obtain ⟨first, others⟩ := List.forall_mem_cons.mp short
    obtain ⟨place, places⟩ := List.forall_mem_cons.mp positions
    obtain ⟨letters, texts⟩ := List.forall_mem_cons.mp characters
    rw [List.length_cons, popEntries, List.flatMap_cons, symbolTableEntry, List.append_assoc, List.append_assoc,
      List.append_assoc,
      popStrFromVec_name first letters, Effects.except_ok_bind]
    dsimp only
    rw [popNumFromVec_bytes place, Effects.except_ok_bind]
    exact ih others places texts (symbols.emplace symbol.marker_position symbol.line_marker_name)

/-- Every name in the map is short. -/
theorem popEntries_short {count : ℕ} (popped : popEntries count symbols vec = .ok (symbols', rest))
    (short : ∀ key name, symbols.find? key = some name → name.length < 2 ^ 16) :
    ∀ key name, symbols'.find? key = some name → name.length < 2 ^ 16 := by
  induction count generalizing symbols vec with
  | zero =>
    obtain ⟨rfl, -⟩ := Prod.mk.inj (Except.ok.inj popped)
    exact short
  | succ count ih =>
    rw [popEntries] at popped
    obtain ⟨⟨entry, behind⟩, named, popped⟩ := Effects.except_bind_eq_ok.mp popped
    obtain ⟨⟨value, later⟩, -, popped⟩ := Effects.except_bind_eq_ok.mp popped
    refine ih popped fun key name found => ?_
    rw [OrderedMap.find?_emplace] at found
    split_ifs at found with new
    · obtain rfl := Option.some.inj found
      exact popStrFromVec_lt named
    · exact short key name found

end Entries

/-! ## The whole file -/

section File

variable {object : ObjectFile} {compile_mode : CompilationMode}

/-- The magic numbers are the first letters of a file. -/
theorem detectMode_exe (rest : List Byte) (asked : CompilationMode) :
    detectMode (LittleEndian.bytes 4 EXE_MAGIC ++ rest) asked = .exe := by
  have magic : LittleEndian.bytes 4 EXE_MAGIC = [0x45, 0x58, 0x45, 0x00] := by decide
  have letters : stringBytes "EXE".toList = [0x45, 0x58, 0x45] := by decide
  have others : stringBytes "SYS".toList = [0x53, 0x59, 0x53] := by decide
  rw [detectMode, magic, letters, others]
  rfl

theorem detectMode_sys (rest : List Byte) (asked : CompilationMode) :
    detectMode (LittleEndian.bytes 4 SYS_MAGIC ++ rest) asked = .sys := by
  have magic : LittleEndian.bytes 4 SYS_MAGIC = [0x53, 0x59, 0x53, 0x00] := by decide
  have letters : stringBytes "SYS".toList = [0x53, 0x59, 0x53] := by decide
  rw [detectMode, magic, letters]
  rfl

theorem popHeader_linkedWrite (holds : object.Holds) (header : compile_mode ≠ .bin) (asked : CompilationMode) :
    popHeader (linkedWrite object compile_mode) asked =
      popEntries object.symbol_table.length .empty
        (object.symbol_table.flatMap symbolTableEntry ++ object.code.flatten) := by
  have count (rest : List Byte) := @popNumFromVec_bytes 8 _ holds.count rest
  cases compile_mode with
  | bin => exact absurd rfl header
  | exe =>
    have magic (rest : List Byte) := @popNumFromVec_bytes 4 EXE_MAGIC (by decide) rest
    rw [popHeader, linkedWrite, detectMode_exe, if_neg (by decide), magic, Effects.except_ok_bind]
    dsimp only
    rw [if_neg (by decide), generateSymbolTable, List.append_assoc, count, Effects.except_ok_bind]
  | sys =>
    have magic (rest : List Byte) := @popNumFromVec_bytes 4 SYS_MAGIC (by decide) rest
    rw [popHeader, linkedWrite, detectMode_sys, if_neg (by decide), magic, Effects.except_ok_bind]
    dsimp only
    rw [if_neg (by decide), generateSymbolTable, List.append_assoc, count, Effects.except_ok_bind]

/-- A file reads back exactly when every name is short and every address has one name. -/
theorem roundTrips_iff (holds : object.Holds) (header : compile_mode ≠ .bin) (asked : CompilationMode) :
    RoundTrips object compile_mode asked ↔
      (∀ symbol ∈ object.symbol_table, symbol.line_marker_name.length < 2 ^ 16) ∧
        ∀ symbol ∈ object.symbol_table, ∀ other ∈ object.symbol_table,
          symbol.marker_position = other.marker_position → symbol.line_marker_name = other.line_marker_name := by
  rw [RoundTrips, popHeader_linkedWrite holds header]
  constructor
  · rintro ⟨symbols, popped, found⟩
    constructor
    · intro symbol member
      exact popEntries_short popped (fun key name none => by cases none) _ _ (found symbol member)
    · intro symbol member other member' same
      have first := found symbol member
      rw [same, found other member'] at first
      exact (Option.some.inj first).symm
  · rintro ⟨short, one⟩
    refine ⟨_, popEntries_flatMap short holds.positions holds.characters .empty _, fun symbol member => ?_⟩
    rw [OrderedMap.find?_foldl_emplace]
    change (((object.symbol_table.map symbolEntry).find? _).map Prod.snd) = _
    cases entry : (object.symbol_table.map symbolEntry).find? (fun entry => decide (entry.1 = symbol.marker_position)) with
    | none =>
      have absent := List.find?_eq_none.mp entry (symbolEntry symbol) (List.mem_map_of_mem member)
      exact absurd (decide_eq_true rfl) absent
    | some entry' =>
      obtain ⟨other, member', rfl⟩ := List.mem_map.mp (List.mem_of_find?_eq_some entry)
      have found := List.find?_some entry
      have same : other.marker_position = symbol.marker_position := @of_decide_eq_true _ _ found
      exact congrArg some (one other member' symbol member same)

/-- Two labels at two addresses come back. -/
theorem roundTrips_two :
    RoundTrips ⟨[[0x4F]], [⟨"a".toList, 0, false, false, []⟩, ⟨"b".toList, 1, false, false, []⟩], []⟩ .exe .bin :=
  (roundTrips_iff ⟨by decide, by decide, by decide⟩ (by decide) .bin).mpr ⟨by decide, by decide⟩

/-- Two labels that share an address do not both come back. -/
theorem not_roundTrips_shared :
    ¬ RoundTrips ⟨[], [⟨"a".toList, 0, false, false, []⟩, ⟨"b".toList, 0, false, false, []⟩], []⟩ .exe .exe := by
  rintro ⟨symbols, -, found⟩
  have first := found ⟨"a".toList, 0, false, false, []⟩ List.mem_cons_self
  have second := found ⟨"b".toList, 0, false, false, []⟩ (List.mem_cons_of_mem _ List.mem_cons_self)
  rw [first] at second
  exact absurd (Option.some.inj second) (by decide)

end File

end Sysdarft.Coding
