import Mathlib.Tactic

/-! # Texts on a screen

A text is written cell by cell, in rows of one width. A screen of fixed height shows its last rows, filled up with
blanks. Writing a cell changes one cell of the screen; a new row changes nothing while there are rows left, and moves
the screen up by one row otherwise.
-/

namespace TextScreen

variable {α : Type*}

/-! ## Rows on the screen -/

/-- The rows of a text that are above the screen. -/
def above (height : ℕ) (rows : List (List α)) : ℕ := rows.length - height

/-- A cell of the screen, counted row by row. -/
def shown (blank : α) (width height : ℕ) (rows : List (List α)) (index : ℕ) : α :=
  ((rows[above height rows + index / width]?).getD [])[index % width]?.getD blank

variable {blank : α} {width height : ℕ}

theorem index_eq_iff {index row column : ℕ} (room : column < width) :
    index = row * width + column ↔ index / width = row ∧ index % width = column := by
  rw [Nat.div_mod_unique (Nat.zero_lt_of_lt room), Nat.mul_comm width, Nat.add_comm column]
  exact ⟨fun same => ⟨same.symm, room⟩, fun same => same.1.symm⟩

/-- A text without cells leaves the screen blank. -/
theorem shown_nil (index : ℕ) : shown blank width height [[]] index = blank := by
  rw [shown, List.getElem?_singleton]
  split_ifs <;> rfl

/-- A cell is written right after the last row; it changes one cell of the screen. -/
theorem shown_append_cell (finished : List (List α)) {current : List α} (cell : α) (room : current.length < width)
    (tall : 0 < height) (index : ℕ) :
    shown blank width height (finished ++ [current ++ [cell]]) index =
      if index = (finished.length - above height (finished ++ [current])) * width + current.length then cell
      else shown blank width height (finished ++ [current]) index := by
  have same : above height (finished ++ [current ++ [cell]]) = above height (finished ++ [current]) := by simp [above]
  have early : above height (finished ++ [current]) ≤ finished.length := by
    simp only [above, List.length_append, List.length_singleton]
    omega
  simp only [shown, same, index_eq_iff room]
  rcases Nat.lt_trichotomy (above height (finished ++ [current]) + index / width) finished.length with before | last | beyond
  · rw [List.getElem?_append_left before, List.getElem?_append_left before, if_neg (by omega)]
  · have row : index / width = finished.length - above height (finished ++ [current]) := by omega
    rw [last, List.getElem?_concat_length, List.getElem?_concat_length, Option.getD_some, Option.getD_some]
    simp only [row, true_and]
    split_ifs with here
    · rw [here, List.getElem?_concat_length, Option.getD_some]
    · rw [List.getElem?_append, List.getElem?_singleton]
      split_ifs with before
      · rfl
      · omega
      · rw [List.getElem?_eq_none (not_lt.mp before)]
  · have outside (row : List α) :
        (finished ++ [row])[above height (finished ++ [current]) + index / width]? = none := by
      apply List.getElem?_eq_none
      rw [List.length_append, List.length_singleton]
      omega
    rw [outside, outside, if_neg (by omega)]

/-- While there are rows left on the screen, a new row looks as before. -/
theorem shown_new_row (rows : List (List α)) (left : rows.length < height) (index : ℕ) :
    shown blank width height (rows ++ [[]]) index = shown blank width height rows index := by
  have top : above height (rows ++ [[]]) = 0 ∧ above height rows = 0 := by
    simp only [above, List.length_append, List.length_singleton]
    omega
  simp only [shown, top.1, top.2, List.getElem?_append, List.getElem?_singleton]
  split_ifs with before last
  · rfl
  · rw [List.getElem?_eq_none (not_lt.mp before)]
    rfl
  · rw [List.getElem?_eq_none (not_lt.mp before)]

/-- On a full screen a new row moves the others up. -/
theorem shown_scroll (rows : List (List α)) (full : height ≤ rows.length) (wide : 0 < width) (tall : 0 < height)
    (index : ℕ) :
    shown blank width height (rows ++ [[]]) index =
      if index < (height - 1) * width then shown blank width height rows (index + width) else blank := by
  have up : above height (rows ++ [[]]) = above height rows + 1 := by
    simp only [above, List.length_append, List.length_singleton]
    omega
  have top : above height rows + height = rows.length := by
    rw [above]
    omega
  simp only [shown, up, Nat.add_div_right index wide, Nat.add_mod_right, ← Nat.div_lt_iff_lt_mul wide]
  split_ifs with row
  · rw [List.getElem?_append_left (by omega), show above height rows + 1 + index / width =
      above height rows + (index / width).succ by omega]
  · rw [List.getElem?_append_right (by omega), List.getElem?_singleton]
    split_ifs <;> rfl

/-! ## Texts -/

/-- A text whose last row has room for a cell. -/
structure Text (α : Type*) (width : ℕ) where
  finished : List (List α)
  current : List α
  hasRoom : current.length < width

namespace Text

variable (text : Text α width)

def empty (wide : 0 < width) : Text α width where
  finished := []
  current := []
  hasRoom := wide

/-- Go on in a new row. -/
def newline : Text α width where
  finished := text.finished ++ [text.current]
  current := []
  hasRoom := Nat.zero_lt_of_lt text.hasRoom

/-- Append a cell to the row, which is finished when it is full. -/
def put (cell : α) : Text α width :=
  if room : text.current.length + 1 < width then
    { finished := text.finished, current := text.current ++ [cell], hasRoom := by simpa using room }
  else
    { finished := text.finished ++ [text.current ++ [cell]], current := [], hasRoom := Nat.zero_lt_of_lt text.hasRoom }

def rows : List (List α) := text.finished ++ [text.current]

end Text

end TextScreen
