import Mathlib.Data.Char
import Mathlib.Data.List.Lex
import Mathlib.Tactic

/-! # Ordered maps

`std::map`: entries in increasing order of their keys, at most one for a key. `emplace` leaves an entry that
is there already alone, `assign` overwrites it.
-/

/-- A map with its entries in the order of iteration. -/
structure OrderedMap (κ α : Type) [LinearOrder κ] where
  entries : List (κ × α)
  sorted : (entries.map Prod.fst).Pairwise (· < ·)

namespace OrderedMap

variable {κ α : Type} [LinearOrder κ]

def empty : OrderedMap κ α := ⟨[], List.Pairwise.nil⟩

/-- The value of a key (`at`). -/
def find? (map : OrderedMap κ α) (key : κ) : Option α :=
  (map.entries.find? fun entry => decide (entry.1 = key)).map Prod.snd

def contains (map : OrderedMap κ α) (key : κ) : Bool := (map.find? key).isSome

/-- An entry put at its place. -/
def place (key : κ) (value : α) : List (κ × α) → List (κ × α)
  | [] => [(key, value)]
  | entry :: rest =>
    if key < entry.1 then (key, value) :: entry :: rest
    else if key = entry.1 then (key, value) :: rest
    else entry :: place key value rest

theorem mem_keys_place {key other : κ} {value : α} {entries : List (κ × α)} :
    other ∈ (place key value entries).map Prod.fst ↔ other = key ∨ other ∈ entries.map Prod.fst := by
  induction entries with
  | nil => simp [place]
  | cons entry rest ih =>
    rw [place]
    split_ifs with before same
    · simp
    · simp [same]
    · rw [List.map_cons, List.mem_cons, ih, List.map_cons, List.mem_cons]
      tauto

theorem sorted_place (key : κ) (value : α) {entries : List (κ × α)} (sorted : (entries.map Prod.fst).Pairwise (· < ·)) :
    ((place key value entries).map Prod.fst).Pairwise (· < ·) := by
  induction entries with
  | nil => exact List.pairwise_singleton ..
  | cons entry rest ih =>
    obtain ⟨least, later⟩ := List.pairwise_cons.mp sorted
    rw [place]
    split_ifs with before same
    · refine List.pairwise_cons.mpr ⟨fun other member => ?_, sorted⟩
      rcases List.mem_cons.mp member with rfl | member
      · exact before
      · exact before.trans (least other member)
    · subst same
      exact sorted
    · refine List.pairwise_cons.mpr ⟨fun other member => ?_, ih later⟩
      rcases mem_keys_place.mp member with rfl | member
      · exact lt_of_le_of_ne (not_lt.mp before) (Ne.symm same)
      · exact least other member

/-- `map[key] = value`. -/
def assign (map : OrderedMap κ α) (key : κ) (value : α) : OrderedMap κ α :=
  ⟨place key value map.entries, sorted_place key value map.sorted⟩

/-- `map.emplace(key, value)`. -/
def emplace (map : OrderedMap κ α) (key : κ) (value : α) : OrderedMap κ α :=
  if map.contains key then map else map.assign key value

section Lookup

variable {map : OrderedMap κ α} {key : κ} {value : α}

private theorem find_place (other : κ) (entries : List (κ × α)) :
    ((place key value entries).find? fun entry => decide (entry.1 = other)).map Prod.snd =
      if other = key then some value else (entries.find? fun entry => decide (entry.1 = other)).map Prod.snd := by
  induction entries with
  | nil =>
    by_cases same : other = key
    · simp [place, same]
    · simp [place, same, Ne.symm same]
  | cons entry rest ih =>
    rw [place]
    by_cases before : key < entry.1
    · rw [if_pos before, List.find?_cons]
      by_cases asked : other = key
      · simp [asked]
      · simp [asked, Ne.symm asked]
    · rw [if_neg before]
      by_cases same : key = entry.1
      · subst same
        by_cases asked : other = entry.1
        · simp [asked]
        · simp [asked, Ne.symm asked]
      · rw [if_neg same, List.find?_cons, List.find?_cons]
        by_cases here : entry.1 = other
        · have differs : other ≠ key := fun asked => same (asked.symm.trans here.symm)
          rw [decide_eq_true here, if_neg differs]
        · rw [decide_eq_false here]
          exact ih

theorem find?_assign (other : κ) :
    (map.assign key value).find? other = if other = key then some value else map.find? other :=
  find_place other map.entries

theorem find?_emplace (other : κ) :
    (map.emplace key value).find? other =
      if other = key ∧ map.contains key = false then some value else map.find? other := by
  rw [emplace]
  split_ifs with present new new
  · rw [present] at new
    cases new.2
  · rfl
  · rw [find?_assign, if_pos new.1]
  · rw [find?_assign, if_neg fun same => new ⟨same, by simpa using present⟩]

theorem contains_assign (other : κ) : (map.assign key value).contains other =
    (decide (other = key) || map.contains other) := by
  rw [contains, find?_assign, contains]
  by_cases same : other = key
  · simp [same]
  · simp [same]

@[simp] theorem contains_emplace (other : κ) :
    (map.emplace key value).contains other = (decide (other = key) || map.contains other) := by
  rw [emplace]
  split_ifs with present
  · by_cases same : other = key
    · rw [same, present, Bool.or_true]
    · rw [decide_eq_false same, Bool.false_or]
  · exact contains_assign other

/-- Of entries put in one after the other, the first for a key stays. -/
theorem find?_foldl_emplace (entries : List (κ × α)) (map : OrderedMap κ α) (key : κ) :
    (entries.foldl (fun map entry => map.emplace entry.1 entry.2) map).find? key =
      (map.find? key).or ((entries.find? fun entry => decide (entry.1 = key)).map Prod.snd) := by
  induction entries generalizing map with
  | nil => exact Option.or_none.symm
  | cons entry rest ih =>
    rw [List.foldl_cons, ih, find?_emplace, List.find?_cons, contains]
    by_cases same : key = entry.1
    · subst same
      cases map.find? entry.1 with
      | none => simp
      | some value => simp
    · simp [same, Ne.symm same]

/-- The entries are the keys with their values. -/
theorem mem_entries_iff : (key, value) ∈ map.entries ↔ map.find? key = some value := by
  obtain ⟨entries, sorted⟩ := map
  rw [find?]
  induction entries with
  | nil => simp
  | cons entry rest ih =>
    obtain ⟨least, later⟩ := List.pairwise_cons.mp sorted
    rw [List.mem_cons, List.find?_cons]
    by_cases same : entry.1 = key
    · have behind : (key, value) ∉ rest := by
        intro member
        exact absurd (least key (List.mem_map_of_mem member)) (by rw [same]; exact lt_irrefl key)
      rw [decide_eq_true same, Option.map_some, Option.some.injEq]
      constructor
      · rintro (rfl | member)
        · rfl
        · exact absurd member behind
      · rintro rfl
        exact .inl (by rw [← same])
    · rw [decide_eq_false same, ← ih later, or_iff_right]
      rintro rfl
      exact same rfl

@[simp] theorem contains_empty (other : κ) : (empty : OrderedMap κ α).contains other = false := rfl

end Lookup

end OrderedMap
