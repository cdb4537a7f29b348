import Sysdarft.Library.TextScreen
import Sysdarft.Proofs.DispatchFaults

/-! # The display as a terminal

`teletype` and `newline` keep video memory and the cursor as a screen of 80 by 25 characters shows a text: the last
rows of it, with the cursor where it goes on. Nothing outside video memory is written.
-/

namespace Sysdarft

open Effects TextScreen

variable {machine after : Machine} {host : Host}

/-- What was written since the screen was blank. -/
abbrev Written := Text Byte V_WIDTH

/-- Video memory shows the last rows, and the cursor is in the row of the last one. -/
structure Machine.ShowsRows (machine : Machine) (rows : List (List Byte)) : Prop where
  cells : ∀ index < V_WIDTH * V_HEIGHT,
    machine.memory.peek (VIDEO_MEMORY_START + index) = shown 0x20 V_WIDTH V_HEIGHT rows index
  row : machine.cursor_y.val = min (rows.length - 1) (V_HEIGHT - 1)

/-- Video memory and the cursor show a text: the cursor is where it goes on. -/
structure Machine.Shows (machine : Machine) (text : Written) : Prop extends machine.ShowsRows text.rows where
  column : machine.cursor_x.val = text.current.length

/-- Outside video memory nothing differs. -/
def SameElsewhere (before after : Machine) : Prop :=
  ∀ address, address < VIDEO_MEMORY_START ∨ VIDEO_MEMORY_START + V_WIDTH * V_HEIGHT ≤ address →
    after.memory.peek address = before.memory.peek address

theorem SameElsewhere.trans {first second third : Machine} (earlier : SameElsewhere first second)
    (later : SameElsewhere second third) : SameElsewhere first third :=
  fun address outside => (later address outside).trans (earlier address outside)

/-- Bytes written to video memory. -/
theorem Machine.peek_video (machine : Machine) {offset : ℕ} {bytes : List Byte}
    (below : offset + bytes.length ≤ V_WIDTH * V_HEIGHT) (index : ℕ) :
    (machine.overwrite (VIDEO_MEMORY_START + offset) bytes).memory.peek (VIDEO_MEMORY_START + index) =
      if index < offset then machine.memory.peek (VIDEO_MEMORY_START + index)
      else (bytes[index - offset]?).getD (machine.memory.peek (VIDEO_MEMORY_START + index)) := by
  rw [overwrite, GuestMemory.peek_overwrite _ (video_inside machine below), FlatMemory.write,
    show VIDEO_MEMORY_START + index - (VIDEO_MEMORY_START + offset) = index - offset by omega]
  simp only [Nat.add_lt_add_iff_left]

theorem Machine.sameElsewhere_overwrite (machine : Machine) {offset : ℕ} {bytes : List Byte}
    (below : offset + bytes.length ≤ V_WIDTH * V_HEIGHT) :
    SameElsewhere machine (machine.overwrite (VIDEO_MEMORY_START + offset) bytes) := by
  intro address outside
  rw [overwrite, GuestMemory.peek_overwrite _ (video_inside machine below)]
  exact FlatMemory.write_outside (by omega)

/-! ## The loops -/

/-- Below the last row the cursor goes down. -/
theorem newline_down (machine : Machine) (left : machine.cursor_y.val ≠ V_HEIGHT - 1) :
    newline machine = setCursor 0 (machine.cursor_y + 1) machine := by
  rw [newline, bind_ok (get_apply machine), if_neg left]

/-- The rows but the first, and a blank one. -/
def Machine.scrolledRows (machine : Machine) : List Byte :=
  FlatMemory.read machine.memory.peek (VIDEO_MEMORY_START + V_WIDTH) ((V_HEIGHT - 1) * V_WIDTH) ++
    List.replicate V_WIDTH 0x20

theorem Machine.length_scrolledRows (machine : Machine) : machine.scrolledRows.length = V_WIDTH * V_HEIGHT := by
  rw [scrolledRows, List.length_append, FlatMemory.length_read, List.length_replicate]
  decide

theorem Machine.getElem?_scrolledRows (machine : Machine) {index : ℕ} (below : index < V_WIDTH * V_HEIGHT) :
    machine.scrolledRows[index]? =
      some (if index < (V_HEIGHT - 1) * V_WIDTH then machine.memory.peek (VIDEO_MEMORY_START + (index + V_WIDTH))
        else 0x20) := by
  rw [scrolledRows, List.getElem?_append, FlatMemory.length_read, FlatMemory.getElem?_read]
  split_ifs with upper
  · rw [Nat.add_comm index, Nat.add_assoc]
  · rw [List.getElem?_replicate, if_pos]
    simp only [V_WIDTH, V_HEIGHT] at below upper ⊢
    omega

/-- In the last row the others move up. -/
theorem newline_scrolls (machine : Machine) (last : machine.cursor_y.val = V_HEIGHT - 1) :
    newline machine = setCursor 0 machine.cursor_y (machine.overwrite (VIDEO_MEMORY_START + 0) machine.scrolledRows) := by
  have scrolled := scrollRows_apply machine (V_HEIGHT - 1) 0 (by decide)
  rw [Nat.zero_mul, Nat.zero_add, Nat.one_mul] at scrolled
  have inside : VIDEO_MEMORY_START + 0 + machine.scrolledRows.length ≤ machine.memory.total :=
    video_inside machine (by rw [Machine.length_scrolledRows, Nat.zero_add])
  have whole := machine.overwrite_append inside
  rw [FlatMemory.length_read] at whole
  rw [newline, bind_ok (get_apply machine), if_pos last, bind_ok scrolled,
    bind_ok (writeVideo_apply _ _ _ (by decide) (by decide))]
  exact congrArg (setCursor 0 machine.cursor_y) whole

/-- A new row on the screen. -/
theorem newline_showsRows {rows : List (List Byte)} (some : rows ≠ []) (shows : machine.ShowsRows rows) :
    ∃ after, newline machine = .ok () after ∧ after.ShowsRows (rows ++ [[]]) ∧ after.cursor_x.val = 0 ∧
      SameElsewhere machine after := by
  have filled := List.length_pos_iff.mpr some
  have row := shows.row
  by_cases last : machine.cursor_y.val = V_HEIGHT - 1
  · have inside : 0 + machine.scrolledRows.length ≤ V_WIDTH * V_HEIGHT := by
      rw [Machine.length_scrolledRows, Nat.zero_add]
    rw [newline_scrolls machine last]
    refine ⟨_, rfl, ⟨fun index below => ?_, ?_⟩, rfl, machine.sameElsewhere_overwrite inside⟩
    · have cell := machine.peek_video inside index
      rw [if_neg (Nat.not_lt_zero index), Nat.sub_zero, machine.getElem?_scrolledRows below, Option.getD_some] at cell
      refine cell.trans ?_
      rw [shown_scroll rows (by simp only [V_HEIGHT] at row last ⊢; omega) (by decide) (by decide)]
      split_ifs with upper
      · exact shows.cells _ (by simp only [V_WIDTH, V_HEIGHT] at upper ⊢; omega)
      · rfl
    · change min machine.cursor_y.val (V_HEIGHT - 1) = _
      simp only [V_HEIGHT, List.length_append, List.length_singleton] at *
      omega
  · rw [newline_down machine last]
    simp only [V_HEIGHT] at last row
    refine ⟨_, rfl, ⟨fun index below => ?_, ?_⟩, rfl, fun _ _ => rfl⟩
    · rw [shown_new_row rows (by simp only [V_HEIGHT]; omega)]
      exact shows.cells index below
    · change min (machine.cursor_y.val + 1) (V_HEIGHT - 1) = _
      simp only [V_HEIGHT, List.length_append, List.length_singleton]
      omega

/-- A character in the cell of the cursor. -/
theorem Machine.Shows.written {text : Written} (shows : machine.Shows text) (character : Byte) :
    ∃ written, writeVideo (machine.cursor_y * V_WIDTH + machine.cursor_x) [character] machine = .ok () written ∧
      written.ShowsRows (text.finished ++ [text.current ++ [character]]) ∧ written.cursor_x = machine.cursor_x ∧
      written.cursor_y = machine.cursor_y ∧ SameElsewhere machine written := by
  have row := machine.cursor_y.isLt
  have column := machine.cursor_x.isLt
  have below : machine.cursor_y * V_WIDTH + machine.cursor_x + [character].length ≤ V_WIDTH * V_HEIGHT := by
    simp only [V_WIDTH, V_HEIGHT, List.length_singleton] at *
    omega
  refine ⟨_, writeVideo_apply machine _ _ Nat.one_pos below, ⟨fun index inside => ?_, ?_⟩, rfl, rfl,
    machine.sameElsewhere_overwrite below⟩
  · have place : machine.cursor_y * V_WIDTH + machine.cursor_x =
        (text.finished.length - above V_HEIGHT text.rows) * V_WIDTH + text.current.length := by
      rw [shows.row, shows.column]
      congr 2
      simp only [above, Text.rows, List.length_append, List.length_singleton, V_HEIGHT]
      omega
    have cell := shows.cells index inside
    rw [machine.peek_video below index, shown_append_cell _ _ text.hasRoom (by decide), ← Text.rows, ← place]
    rcases Nat.lt_trichotomy index (machine.cursor_y * V_WIDTH + machine.cursor_x) with before | here | beyond
    · rw [if_pos before, if_neg before.ne]
      exact cell
    · rw [if_neg here.not_lt, if_pos here, here, Nat.sub_self]
      rfl
    · rw [if_neg beyond.not_gt, if_neg beyond.ne', List.getElem?_eq_none (by rw [List.length_singleton]; omega)]
      exact cell
  · refine shows.row.trans ?_
    simp only [Text.rows, List.length_append, List.length_singleton]

/-- `teletype` appends a character to the text. -/
theorem teletype_shows {text : Written} (shows : machine.Shows text) (character : Byte) :
    ∃ after, teletype character machine = .ok () after ∧ after.Shows (text.put character) ∧ SameElsewhere machine after := by
  obtain ⟨written, wrote, rows, sameColumn, sameRow, elsewhere⟩ := shows.written character
  rw [teletype, bind_ok (get_apply machine), bind_ok wrote, shows.column, Text.put]
  by_cases room : text.current.length + 1 < V_WIDTH
  · rw [if_neg (not_le.mpr room), dif_pos room]
    refine ⟨_, rfl, ⟨⟨rows.cells, ?_⟩, ?_⟩, elsewhere⟩
    · have row := rows.row
      rw [sameRow] at row
      change min machine.cursor_y.val (V_HEIGHT - 1) = _
      rw [Nat.min_eq_left (Nat.le_sub_one_of_lt machine.cursor_y.isLt), row]
      rfl
    · change min (text.current.length + 1) (V_WIDTH - 1) = _
      rw [Nat.min_eq_left (Nat.le_sub_one_of_lt room), List.length_append, List.length_singleton]
  · rw [if_pos (not_lt.mp room), dif_neg room]
    obtain ⟨after, done, below, start, elsewhere'⟩ := newline_showsRows (by simp) rows
    exact ⟨after, done, ⟨below, start⟩, elsewhere.trans elsewhere'⟩

/-- `newline` goes on in a new row. -/
theorem newline_shows {text : Written} (shows : machine.Shows text) :
    ∃ after, newline machine = .ok () after ∧ after.Shows text.newline ∧ SameElsewhere machine after := by
  obtain ⟨after, done, rows, column, elsewhere⟩ := newline_showsRows (by simp [Text.rows]) shows.toShowsRows
  exact ⟨after, done, ⟨rows, column⟩, elsewhere⟩

/-! ## The interruptions -/

theorem int_tty (machine : Machine) :
    doInterruption host 0x10 machine = teletype ((machine.registers.load EXR0).setWidth 8) machine := by
  have run : doInterruption host 0x10 machine = doInterruptionTty machine := doInterruption_builtIn (by decide) rfl machine
  rw [run]
  rfl

theorem int_newline (machine : Machine) : doInterruption host 0x13 machine = newline machine :=
  doInterruption_builtIn (by decide) rfl machine

/-- The position of the cursor, counted row by row. -/
def Machine.position (machine : Machine) : ℕ := V_WIDTH * machine.cursor_y + machine.cursor_x

theorem Machine.position_lt (machine : Machine) : machine.position < V_WIDTH * V_HEIGHT := by
  have row := machine.cursor_y.isLt
  have column := machine.cursor_x.isLt
  simp only [position, V_WIDTH, V_HEIGHT] at *
  omega

/-- The cursor's position is returned. -/
theorem int_curPos (host : Host) (machine : Machine) :
    ∃ after, doInterruption host 0x15 machine = .ok () after ∧
      after.registers.load EXR0 = BitVec.ofNat 64 machine.position := by
  have run : doInterruption host 0x15 machine = doInterruptionCurPos machine :=
    doInterruption_builtIn (by decide) rfl machine
  have below := machine.position_lt
  have same : machine.cursor_y * V_WIDTH + machine.cursor_x = machine.position := by
    rw [Machine.position, Nat.mul_comm]
  rw [run, doInterruptionCurPos, bind_ok (get_apply machine), same]
  refine ⟨_, rfl, ?_⟩
  change (machine.registers.store (BitVec.ofNat 64 machine.position) EXR0).load EXR0 = _
  rw [Registers.load_store]
  apply BitVec.eq_of_toNat_eq
  rw [BitVec.toNat_setWidth, BitVec.toNat_setWidth, BitVec.toNat_ofNat]
  simp only [EXR0, Register.width, Width.bits, V_WIDTH, V_HEIGHT] at below ⊢
  omega

/-- A position that is set is the position of the cursor. -/
theorem int_setCurPos (host : Host) (below : (machine.registers.load EXR0).toNat < V_WIDTH * V_HEIGHT) :
    ∃ after, doInterruption host 0x11 machine = .ok () after ∧ after.position = (machine.registers.load EXR0).toNat := by
  have run : doInterruption host 0x11 machine = doInterruptionSetCurPos machine :=
    doInterruption_builtIn (by decide) rfl machine
  rw [run, doInterruptionSetCurPos, bind_ok (loadRegister_apply EXR0 machine), if_neg (by omega)]
  refine ⟨_, rfl, ?_⟩
  change V_WIDTH * min _ (V_HEIGHT - 1) + min _ (V_WIDTH - 1) = _
  simp only [V_WIDTH, V_HEIGHT] at below ⊢
  omega

/-! ## Runs -/

/-- An output: a character, or a new row. -/
inductive Output where
  | character (byte : Byte)
  | line

def Output.append (text : Written) : Output → Written
  | character byte => text.put byte
  | line => text.newline

theorem V_WIDTH_pos : 0 < V_WIDTH := by decide

/-- The text of a sequence of outputs. -/
def written (outputs : List Output) : Written := outputs.foldl Output.append (.empty V_WIDTH_pos)

/-- The display is blank, with the cursor in its first cell. -/
structure Machine.Blank (machine : Machine) : Prop where
  cells : ∀ index < V_WIDTH * V_HEIGHT, machine.memory.peek (VIDEO_MEMORY_START + index) = 0x20
  column : machine.cursor_x.val = 0
  row : machine.cursor_y.val = 0

/-- The outputs of a run of `INT 0x10` and `INT 0x13`, with registers that are loaded in between. -/
inductive OutputRun (host : Host) (start : Machine) : List Output → Machine → Prop where
  | start : OutputRun host start [] start
  | load {outputs : List Output} {machine : Machine} (earlier : OutputRun host start outputs machine)
      (registers : Registers) : OutputRun host start outputs { machine with registers := registers }
  | character {outputs : List Output} {machine after : Machine} (earlier : OutputRun host start outputs machine)
      (done : doInterruption host 0x10 machine = .ok () after) :
      OutputRun host start (outputs ++ [.character ((machine.registers.load EXR0).setWidth 8)]) after
  | line {outputs : List Output} {machine after : Machine} (earlier : OutputRun host start outputs machine)
      (done : doInterruption host 0x13 machine = .ok () after) :
      OutputRun host start (outputs ++ [.line]) after

theorem Machine.Blank.shows (blank : machine.Blank) : machine.Shows (written []) where
  cells := fun index below => by
    rw [blank.cells index below]
    exact (shown_nil index).symm
  row := blank.row
  column := blank.column

/-- Every output keeps the display as the text has it. -/
theorem OutputRun.shows {start : Machine} {outputs : List Output} (blank : start.Blank)
    (run : OutputRun host start outputs machine) : machine.Shows (written outputs) ∧ SameElsewhere start machine := by
  induction run with
  | start => exact ⟨blank.shows, fun _ _ => rfl⟩
  | load earlier registers ih => exact ⟨⟨⟨ih.1.cells, ih.1.row⟩, ih.1.column⟩, ih.2⟩
  | character earlier done ih =>
    obtain ⟨next, printed, shows, elsewhere⟩ := teletype_shows ih.1 _
    rw [int_tty, printed] at done
    cases done
    rw [written, List.foldl_append]
    exact ⟨shows, ih.2.trans elsewhere⟩
  | line earlier done ih =>
    obtain ⟨next, advanced, shows, elsewhere⟩ := newline_shows ih.1
    rw [int_newline, advanced] at done
    cases done
    rw [written, List.foldl_append]
    exact ⟨shows, ih.2.trans elsewhere⟩

/-- The display is the terminal that a sequence of outputs leaves behind. -/
structure Terminal (host : Host) (start machine : Machine) (outputs : List Output) : Prop where
  screen : ∀ index < V_WIDTH * V_HEIGHT, machine.memory.peek (VIDEO_MEMORY_START + index) =
    shown 0x20 V_WIDTH V_HEIGHT (written outputs).rows index
  column : machine.cursor_x.val = (written outputs).current.length ∧ machine.cursor_x.val < V_WIDTH
  row : machine.cursor_y.val = min (written outputs).finished.length (V_HEIGHT - 1) ∧ machine.cursor_y.val < V_HEIGHT
  elsewhere : SameElsewhere start machine
  prints : ∃ after, doInterruption host 0x10 machine = .ok () after
  advances : ∃ after, doInterruption host 0x13 machine = .ok () after
  position : ∃ after, doInterruption host 0x15 machine = .ok () after ∧
    after.registers.load EXR0 = BitVec.ofNat 64 (V_WIDTH * machine.cursor_y + machine.cursor_x)

/-- Every run from the blank display keeps the terminal, and a position that is set reads back whatever is loaded in
between. -/
theorem terminal {start : Machine} {outputs : List Output} (blank : start.Blank)
    (run : OutputRun host start outputs machine) :
    Terminal host start machine outputs ∧
      ∀ moved : Machine, (moved.registers.load EXR0).toNat < V_WIDTH * V_HEIGHT →
        ∃ set, doInterruption host 0x11 moved = .ok () set ∧ ∀ registers : Registers,
          ∃ after, doInterruption host 0x15 { set with registers := registers } = .ok () after ∧
            after.registers.load EXR0 = moved.registers.load EXR0 := by
  obtain ⟨shows, elsewhere⟩ := run.shows blank
  constructor
  · obtain ⟨printed, prints, -⟩ := teletype_shows shows ((machine.registers.load EXR0).setWidth 8)
    obtain ⟨advanced, advances, -⟩ := newline_shows shows
    refine ⟨shows.cells, ⟨shows.column, machine.cursor_x.isLt⟩, ⟨?_, machine.cursor_y.isLt⟩, elsewhere,
      ⟨printed, (int_tty machine).trans prints⟩, ⟨advanced, (int_newline machine).trans advances⟩, int_curPos host machine⟩
    rw [shows.row, Text.rows, List.length_append, List.length_singleton, Nat.add_sub_cancel]
  · intro moved below
    obtain ⟨set, done, place⟩ := int_setCurPos host below
    refine ⟨set, done, fun registers => ?_⟩
    obtain ⟨after, read, position⟩ := int_curPos host { set with registers := registers }
    refine ⟨after, read, position.trans ?_⟩
    change BitVec.ofNat 64 set.position = _
    rw [place, BitVec.ofNat_toNat, BitVec.setWidth_eq]

/-- A powered-on machine whose display was cleared. -/
def Machine.cleared : Machine :=
  Machine.powerOn.overwrite (VIDEO_MEMORY_START + 0) (List.replicate (V_WIDTH * V_HEIGHT) 0x20)

theorem Machine.cleared_blank : Machine.cleared.Blank where
  cells := fun index below => by
    rw [cleared, Machine.powerOn.peek_video (by rw [List.length_replicate, Nat.zero_add]) index,
      if_neg (Nat.not_lt_zero index), Nat.sub_zero, List.getElem?_replicate, if_pos below]
    rfl
  column := rfl
  row := rfl

/-- A character and a new row on the cleared display. -/
theorem terminal_cleared :
    ∃ machine, Terminal Host.ample Machine.cleared machine [.character 0, .line] := by
  have fresh : OutputRun Host.ample Machine.cleared [] Machine.cleared := .start
  obtain ⟨printed, done⟩ := (terminal Machine.cleared_blank fresh).1.prints
  have first : OutputRun Host.ample Machine.cleared [.character 0] printed := .character fresh done
  obtain ⟨advanced, done⟩ := (terminal Machine.cleared_blank first).1.advances
  exact ⟨advanced, (terminal Machine.cleared_blank (.line first done)).1⟩

end Sysdarft
