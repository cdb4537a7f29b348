import Mathlib.Tactic

/-! # Flat arrays of cells

A flat view assigns a cell to every address. Reading an interval lists its cells, and writing an
interval replaces exactly its cells. Adjacent intervals compose, which is what block-wise
implementations are compared with.
-/

namespace FlatMemory

variable {α : Type*}

/-- The cells of an interval. -/
def read (view : ℕ → α) (address size : ℕ) : List α :=
  (List.range size).map fun offset => view (address + offset)

/-- Replace the cells from an address on. -/
def write (view : ℕ → α) (address : ℕ) (data : List α) : ℕ → α :=
  fun query => if query < address then view query else (data[query - address]?).getD (view query)

variable {view other : ℕ → α} {address size : ℕ} {data : List α}

@[simp] theorem length_read : (read view address size).length = size := by
  simp [read]

@[simp] theorem read_zero : read view address 0 = [] := rfl

theorem getElem?_read (offset : ℕ) :
    (read view address size)[offset]? = if offset < size then some (view (address + offset)) else none := by
  rw [read, List.getElem?_map]
  split_ifs with inside
  · simp [inside]
  · simp [List.getElem?_eq_none (show (List.range size).length ≤ offset by simpa using inside)]

/-- Adjacent intervals are read one after the other. -/
theorem read_add (more : ℕ) :
    read view address (size + more) = read view address size ++ read view (address + size) more := by
  simp only [read, List.range_add, List.map_append, List.map_map]
  congr 1
  exact List.map_congr_left fun offset _ => by simp [Nat.add_assoc]

theorem read_congr (same : ∀ query, address ≤ query → query < address + size → view query = other query) :
    read view address size = read other address size := by
  apply List.map_congr_left
  intro offset member
  exact same _ (by omega) (by have := List.mem_range.mp member; omega)

@[simp] theorem write_nil : write view address [] = view := by
  funext query
  simp [write]

theorem write_outside {query : ℕ} (outside : query < address ∨ address + data.length ≤ query) :
    write view address data query = view query := by
  rw [write]
  split_ifs with below
  · rfl
  · rw [List.getElem?_eq_none (by omega)]
    rfl

theorem write_inside {offset : ℕ} (inside : offset < data.length) :
    write view address data (address + offset) = data[offset] := by
  rw [write, if_neg (by omega), Nat.add_sub_cancel_left, List.getElem?_eq_getElem inside]
  rfl

/-- A write in two adjacent pieces is one write. -/
theorem write_append (first second : List α) :
    write view address (first ++ second) = write (write view address first) (address + first.length) second := by
  funext query
  by_cases below : query < address + first.length
  · have later : write (write view address first) (address + first.length) second query = write view address first query :=
      write_outside (.inl below)
    rw [later]
    by_cases early : query < address
    · rw [write_outside (.inl early), write_outside (.inl early)]
    · obtain ⟨offset, rfl⟩ := Nat.exists_eq_add_of_le (Nat.le_of_not_lt early)
      rw [write_inside (show offset < (first ++ second).length by simp only [List.length_append]; omega),
        write_inside (show offset < first.length by omega), List.getElem_append_left]
  · obtain ⟨offset, rfl⟩ := Nat.exists_eq_add_of_le (Nat.le_of_not_lt below)
    by_cases inside : offset < second.length
    · rw [write_inside inside, Nat.add_assoc, write_inside (by simp only [List.length_append]; omega),
        List.getElem_append_right (by omega)]
      simp
    · rw [write_outside (.inr (by simp only [List.length_append]; omega)),
        write_outside (.inr (by omega)), write_outside (.inr (by omega))]

/-- Writes that are apart may be made in either order. -/
theorem write_comm {place : ℕ} {other : List α} (apart : address + data.length ≤ place ∨ place + other.length ≤ address) :
    write (write view address data) place other = write (write view place other) address data := by
  funext query
  by_cases first : address ≤ query ∧ query < address + data.length
  · obtain ⟨offset, rfl⟩ := Nat.exists_eq_add_of_le first.1
    rw [write_outside (by omega), write_inside (by omega), write_inside (by omega)]
  · by_cases second : place ≤ query ∧ query < place + other.length
    · obtain ⟨offset, rfl⟩ := Nat.exists_eq_add_of_le second.1
      rw [write_inside (by omega), write_outside (by omega), write_inside (by omega)]
    · rw [write_outside (by omega), write_outside (by omega), write_outside (by omega), write_outside (by omega)]

/-- Reading back what was written. -/
theorem read_write : read (write view address data) address data.length = data := by
  apply List.ext_getElem
  · simp
  · intro offset _ inside
    simp only [read, List.getElem_map, List.getElem_range]
    exact write_inside inside

theorem read_write_whole (whole : data.length = size) : read (write view address data) address size = data := by
  rw [← whole]
  exact read_write

/-- A write leaves intervals apart from it unchanged. -/
theorem read_write_disjoint {start : ℕ}
    (apart : start + size ≤ address ∨ address + data.length ≤ start) :
    read (write view address data) start size = read view start size :=
  read_congr fun _ low high => write_outside (by omega)

theorem read_inj : read view address size = read other address size ↔
    ∀ query, address ≤ query → query < address + size → view query = other query := by
  constructor
  · intro same query low high
    obtain ⟨offset, rfl⟩ := Nat.exists_eq_add_of_le low
    have cells := congrArg (fun string : List α => string[offset]?) same
    simp only [getElem?_read, if_pos (show offset < size by omega), Option.some.injEq] at cells
    exact cells
  · exact read_congr

/-- An interval reads the same after a write exactly when the cells written in it are the ones it had. -/
theorem read_write_eq_iff {start : ℕ} :
    read (write view address data) start size = read view start size ↔
      ∀ offset < data.length, start ≤ address + offset → address + offset < start + size →
        data[offset]? = some (view (address + offset)) := by
  rw [read_inj]
  constructor
  · intro same offset inside low high
    rw [← same _ low high, write_inside inside, List.getElem?_eq_getElem inside]
  · intro same query low high
    by_cases written : address ≤ query ∧ query < address + data.length
    · obtain ⟨offset, rfl⟩ := Nat.exists_eq_add_of_le written.1
      have inside : offset < data.length := by omega
      have cell := same offset inside low high
      rw [List.getElem?_eq_getElem inside] at cell
      rw [write_inside inside]
      exact Option.some.inj cell
    · exact write_outside (by omega)

end FlatMemory
