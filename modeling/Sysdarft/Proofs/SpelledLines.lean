import Sysdarft.Proofs.ReassembleOperand
import Sysdarft.Proofs.SpelledFormat

/-! # The lines of spelled instructions

Whether a line has bytes printed as data or an empty operand can be told from the operands that were read, as no other
part of it has the characters of a marker or a bracket.
-/

namespace Sysdarft.Coding

open Format

/-! ## What is printed -/

/-- How a byte that is printed as data starts. -/
def dataMarker : List Char := ".8bit_data".toList

theorem badNbit_marked (data : Byte) : dataMarker <:+: badNbit data :=
  ⟨[], _, rfl⟩

/-- Neither part of a marker nor a bracket. -/
def Clear (text : List Char) : Prop := ∀ c ∈ text, c ≠ '_' ∧ c ≠ '<' ∧ c ≠ '>'

instance : DecidablePred Clear := fun text => inferInstanceAs (Decidable (∀ c ∈ text, _))

theorem Clear.append {first second : List Char} (clear : Clear first) (clear' : Clear second) : Clear (first ++ second) :=
  fun c member => (List.mem_append.mp member).elim (clear c) (clear' c)

theorem clear_of_chars {text : List Char} (chars : ∀ c ∈ text, c ∈ parameterChars) : Clear text := by
  have all : Clear parameterChars := by decide
  exact fun c member => all c (chars c member)

theorem clear_decimal (n : ℕ) : Clear (Numerals.decimal n) := clear_of_chars fun _ => decimal_chars

theorem clear_hexadecimal (n : ℕ) : Clear (Numerals.hexadecimal n) := clear_of_chars fun _ => hexadecimal_chars

theorem clear_width (width : Width) : Clear width.digits := clear_of_chars (width_chars width)

theorem clear_ratio (ratio : Ratio) : Clear ratio.digits := clear_of_chars (ratio_chars ratio)

theorem registerLiteral_eq_none {register_size register_index : Byte} :
    registerLiteral register_size register_index = none ↔
      (SpelledParameter.register register_size register_index).Marked := by
  rw [registerLiteral, SpelledParameter.Marked, Register.ofCodes]
  cases Width.ofBcd register_size with
  | none => exact iff_of_true rfl (.inl rfl)
  | some width =>
    cases width with
    | w8 | w16 | w32 => exact iff_of_false (by rintro ⟨⟩) (by rintro (missing | ⟨missing, -⟩) <;> cases missing)
    | w64 =>
      by_cases low : register_index.toNat ≤ 15
      · have below : register_index.toNat < Width.w64.registerCount := Nat.lt_succ_of_le low
        simp [low, below]
      · have above : ¬ register_index.toNat < Width.w64.registerCount := fun below => low (Nat.le_of_lt_succ below)
        simp [low, above]

theorem registerLiteral_clear {register_size register_index : Byte} {name : List Char}
    (printed : registerLiteral register_size register_index = some name) : Clear name ∧ name ≠ [] := by
  have numbered (width : Width) : Clear ("%".toList ++ width.registerLetters ++ Numerals.decimal register_index.toNat) := by
    have letters : Clear ("%".toList ++ width.registerLetters) := by cases width <;> decide
    exact letters.append (clear_decimal _)
  rw [registerLiteral] at printed
  cases known : Width.ofBcd register_size with
  | none => rw [known] at printed; cases printed
  | some width =>
    rw [known] at printed
    cases width with
    | w8 | w16 | w32 =>
      cases printed
      exact ⟨numbered _, List.cons_ne_nil _ _⟩
    | w64 =>
      simp only at printed
      split_ifs at printed
      · cases printed
        exact ⟨numbered .w64, List.cons_ne_nil _ _⟩
      · obtain ⟨special, -, rfl⟩ := Option.map_eq_some_iff.mp printed
        refine ⟨?_, List.cons_ne_nil _ _⟩
        cases special <;> decide

theorem SpelledParameter.Marked.printed {parameter : SpelledParameter} (marked : parameter.Marked) :
    dataMarker <:+: parameter.texts.flatten := by
  cases parameter with
  | register register_size register_index =>
    rw [SpelledParameter.texts, registerLiteral_eq_none.mpr marked, List.flatten_cons]
    exact (badNbit_marked _).trans List.infix_append_left
  | constant width num => exact marked.elim
  | unsized code =>
    rw [SpelledParameter.texts, List.flatten_singleton]
    exact badNbit_marked code

theorem SpelledParameter.clear {parameter : SpelledParameter} (unmarked : ¬ parameter.Marked) :
    Clear parameter.texts.flatten ∧ parameter.texts.flatten ≠ [] := by
  cases parameter with
  | register register_size register_index =>
    cases printed : registerLiteral register_size register_index with
    | none => exact absurd (registerLiteral_eq_none.mp printed) unmarked
    | some name =>
      rw [SpelledParameter.texts, printed, List.flatten_singleton]
      exact registerLiteral_clear printed
  | constant width num =>
    rw [SpelledParameter.texts, List.flatten_singleton]
    have front : Clear ("$".toList ++ width.digits ++ "(0x".toList) :=
      (show Clear "$".toList by decide).append (clear_width width) |>.append (by decide)
    exact ⟨(front.append (clear_hexadecimal num)).append (by decide), List.cons_ne_nil _ _⟩
  | unsized code => exact absurd trivial unmarked

theorem SpelledTarget.Marked.printed {target : SpelledTarget} (marked : target.Marked) :
    dataMarker <:+: target.texts.flatten := by
  cases target with
  | plain parameter => exact SpelledParameter.Marked.printed marked
  | memory width base offset1 offset2 ratio =>
    cases known : Ratio.ofBcd ratio with
    | none =>
      rw [SpelledTarget.texts, known, List.flatten_singleton]
      exact badNbit_marked ratio
    | some known_ratio =>
      rw [SpelledTarget.texts, known, List.flatten_singleton]
      rcases marked with marked | marked | marked | missing
      · refine marked.printed.trans ?_
        iterate 5 apply List.infix_append_of_infix_left
        exact List.infix_append_right
      · refine marked.printed.trans ?_
        iterate 3 apply List.infix_append_of_infix_left
        exact List.infix_append_right
      · exact marked.printed.trans (List.infix_append_of_infix_left List.infix_append_right)
      · rw [missing] at known
        cases known
  | abandoned => exact marked.elim
  | unsizedMemory code | unknown code =>
    rw [SpelledTarget.texts, List.flatten_singleton]
    exact badNbit_marked code

theorem SpelledTarget.clear {target : SpelledTarget} (unmarked : ¬ target.Marked) (given : target ≠ .abandoned) :
    Clear target.texts.flatten ∧ target.texts.flatten ≠ [] := by
  cases target with
  | plain parameter => exact SpelledParameter.clear unmarked
  | memory width base offset1 offset2 ratio =>
    cases known : Ratio.ofBcd ratio with
    | none => exact absurd (.inr (.inr (.inr known))) unmarked
    | some known_ratio =>
      rw [SpelledTarget.texts, known, List.flatten_singleton]
      have first := (SpelledParameter.clear fun marked => unmarked (.inl marked)).1
      have second := (SpelledParameter.clear fun marked => unmarked (.inr (.inl marked))).1
      have third := (SpelledParameter.clear fun marked => unmarked (.inr (.inr (.inl marked)))).1
      have scaled : Clear ("*".toList ++ known_ratio.digits ++ "&".toList ++ width.digits ++ "(".toList) :=
        ((((show Clear "*".toList by decide).append (clear_ratio known_ratio)).append (by decide)).append
          (clear_width width)).append (by decide)
      refine ⟨?_, List.cons_ne_nil _ _⟩
      exact (((((scaled.append first).append (by decide)).append second).append (by decide)).append third).append (by decide)
  | abandoned => exact absurd rfl given
  | unsizedMemory code | unknown code => exact absurd trivial unmarked

/-! ## Lines -/

/-- An operand that is not printed. -/
def emptyOperand : List Char := "<>".toList

/-- Text without an opening bracket is not part of an empty operand. -/
theorem emptyOperand_append {front text : List Char} (opened : '<' ∉ front) (empty : emptyOperand <:+: front ++ text) :
    emptyOperand <:+: text := by
  induction front with
  | nil => exact empty
  | cons c front ih =>
    rw [List.mem_cons, not_or] at opened
    rcases List.infix_cons_iff.mp empty with here | later
    · exact absurd (List.cons_prefix_cons.mp here).1 opened.1
    · exact ih opened.2 later

/-- A bracket around something is not an empty operand. -/
theorem emptyOperand_bracketed {inner text : List Char} (clear : Clear inner) (filled : inner ≠ [])
    (empty : emptyOperand <:+: " <".toList ++ inner ++ ">".toList ++ text) : emptyOperand <:+: text := by
  obtain ⟨first, others, rfl⟩ := List.exists_cons_of_ne_nil filled
  have later : emptyOperand <:+: first :: others ++ ">".toList ++ text := by
    rcases List.infix_cons_iff.mp empty with here | empty
    · exact absurd (List.cons_prefix_cons.mp here).1 (by decide)
    · rcases List.infix_cons_iff.mp empty with here | later
      · have closes := (List.cons_prefix_cons.mp (List.cons_prefix_cons.mp here).2).1
        exact absurd closes.symm (clear first List.mem_cons_self).2.2
      · exact later
  refine emptyOperand_append ?_ later
  rw [List.mem_append, not_or]
  exact ⟨fun member => (clear _ member).2.1 rfl, by decide⟩

variable {argument_count remaining : ℕ} {targets : List SpelledTarget} {target : SpelledTarget}

theorem infix_spelledOperands (member : target ∈ targets) (remaining : ℕ) :
    " <".toList ++ target.texts.flatten ++ ">".toList <:+: spelledOperands argument_count remaining targets := by
  induction targets generalizing remaining with
  | nil => cases member
  | cons first others ih =>
    rw [spelledOperands]
    rcases List.mem_cons.mp member with rfl | later
    · exact List.infix_append_of_infix_left List.infix_append_left
    · exact List.infix_append_of_infix_right (ih later _)

theorem marker_mem {line : List Char} (marked : dataMarker <:+: line) : '_' ∈ line :=
  marked.mem (by decide)

theorem spelledOperands_unmarked (unmarked : ∀ target ∈ targets, ¬ target.Marked) (remaining : ℕ) :
    '_' ∉ spelledOperands argument_count remaining targets := by
  induction targets generalizing remaining with
  | nil => exact List.not_mem_nil
  | cons first others ih =>
    obtain ⟨unmarked1, unmarked⟩ := List.forall_mem_cons.mp unmarked
    have text : '_' ∉ first.texts.flatten := by
      by_cases given : first = .abandoned
      · rw [given]
        exact List.not_mem_nil
      · exact fun member => ((SpelledTarget.clear unmarked1 given).1 _ member).1 rfl
    have comma : '_' ∉ if remaining = argument_count ∧ 1 < argument_count then ",".toList else [] := by
      split_ifs <;> decide
    rw [spelledOperands]
    simp only [List.mem_append, not_or]
    exact ⟨⟨⟨⟨by decide, text⟩, by decide⟩, comma⟩, ih unmarked _⟩

theorem spelledOperands_filled (unmarked : ∀ target ∈ targets, ¬ target.Marked)
    (given : ∀ target ∈ targets, target ≠ .abandoned) (remaining : ℕ) :
    ¬ emptyOperand <:+: spelledOperands argument_count remaining targets := by
  induction targets generalizing remaining with
  | nil =>
    rw [spelledOperands]
    exact fun empty => absurd empty.length_le (by decide)
  | cons first others ih =>
    obtain ⟨unmarked1, unmarked⟩ := List.forall_mem_cons.mp unmarked
    obtain ⟨given1, given⟩ := List.forall_mem_cons.mp given
    obtain ⟨clear, filled⟩ := SpelledTarget.clear unmarked1 given1
    have comma : '<' ∉ if remaining = argument_count ∧ 1 < argument_count then ",".toList else [] := by
      split_ifs <;> decide
    intro empty
    rw [spelledOperands, List.append_assoc] at empty
    exact ih unmarked given _ (emptyOperand_append comma (emptyOperand_bracketed clear filled empty))

/-- A line that starts with a mnemonic, without bytes printed as data and without empty operands. -/
def PrintsInstruction (output : List (List Char)) : Prop :=
  ∃ (mnemonic : Mnemonic) (tail : List Char), output = [mnemonic.name ++ tail] ∧
    ¬ dataMarker <:+: mnemonic.name ++ tail ∧ ¬ emptyOperand <:+: mnemonic.name ++ tail

/-- Some byte is printed as data. -/
def ReportsBad (output : List (List Char)) : Prop := ∃ line ∈ output, dataMarker <:+: line

theorem PrintsInstruction.not_reports {output : List (List Char)} (prints : PrintsInstruction output) :
    ¬ ReportsBad output := by
  obtain ⟨mnemonic, tail, rfl, unmarked, -⟩ := prints
  rintro ⟨line, member, marked⟩
  obtain rfl := List.mem_singleton.mp member
  exact unmarked marked

/-- Every operand is read, and none is printed as data. -/
def SpelledInstruction.Unmarked : SpelledInstruction → Prop
  | line _ _ targets => ∀ target ∈ targets, ¬ target.Marked
  | cut _ _ | unsized _ _ | unknown _ => False

theorem reportsBad_iff (spelled : SpelledInstruction) : ReportsBad spelled.lines ↔ ¬ spelled.Unmarked := by
  cases spelled with
  | line mnemonic op_width targets =>
    constructor
    · rintro ⟨text, member, marked⟩ unmarked
      obtain rfl := List.mem_singleton.mp member
      have name : '_' ∉ mnemonic.name := by cases mnemonic <;> decide
      have width : '_' ∉ op_width.elim [] widthLiteral := by
        cases op_width with
        | none => exact List.not_mem_nil
        | some width => cases width <;> decide
      have found := marker_mem marked
      rw [List.mem_append, List.mem_append] at found
      exact found.elim (fun front => front.elim name width) (spelledOperands_unmarked unmarked _)
    · intro some_marked
      simp only [SpelledInstruction.Unmarked, not_forall, not_not] at some_marked
      obtain ⟨target, member, marked⟩ := some_marked
      refine ⟨_, List.mem_singleton_self _, ?_⟩
      have inner : dataMarker <:+: " <".toList ++ target.texts.flatten ++ ">".toList :=
        marked.printed.trans (List.infix_append_of_infix_left List.infix_append_right)
      exact List.infix_append_of_infix_right (inner.trans (infix_spelledOperands member _))
  | cut mnemonic op_width => exact iff_of_true ⟨_, List.mem_cons_self, badNbit_marked _⟩ id
  | unsized mnemonic op_width => exact iff_of_true ⟨_, List.mem_cons_self, badNbit_marked _⟩ id
  | unknown instruction => exact iff_of_true ⟨_, List.mem_cons_self, badNbit_marked _⟩ id

theorem printsInstruction_iff (spelled : SpelledInstruction) :
    PrintsInstruction spelled.lines ↔
      ∃ mnemonic op_width targets, spelled = .line mnemonic op_width targets ∧
        ∀ target ∈ targets, ¬ target.Marked ∧ target ≠ .abandoned := by
  constructor
  · intro prints
    have unmarked := not_not.mp ((reportsBad_iff spelled).not.mp prints.not_reports)
    cases spelled with
    | line mnemonic op_width targets =>
      refine ⟨mnemonic, op_width, targets, rfl, fun target member => ⟨unmarked target member, ?_⟩⟩
      rintro rfl
      obtain ⟨name, tail, same, -, filled⟩ := prints
      rw [← List.singleton_inj.mp same] at filled
      have empty : emptyOperand <:+: " <".toList ++ SpelledTarget.abandoned.texts.flatten ++ ">".toList :=
        ⟨" ".toList, [], rfl⟩
      exact filled (List.infix_append_of_infix_right (empty.trans (infix_spelledOperands member _)))
    | cut | unsized | unknown => exact unmarked.elim
  · rintro ⟨mnemonic, op_width, targets, rfl, clear⟩
    have unmarked (target : SpelledTarget) (member : target ∈ targets) : ¬ target.Marked := (clear target member).1
    have given (target : SpelledTarget) (member : target ∈ targets) : target ≠ .abandoned := (clear target member).2
    refine ⟨mnemonic, op_width.elim [] widthLiteral ++ spelledOperands mnemonic.argumentCount mnemonic.argumentCount targets,
      ?_, ?_, ?_⟩
    · rw [SpelledInstruction.lines, List.append_assoc]
    · intro marked
      rw [← List.append_assoc] at marked
      exact (reportsBad_iff (.line mnemonic op_width targets)).not.mpr (not_not.mpr unmarked)
        ⟨_, List.mem_singleton_self _, marked⟩
    · intro empty
      have name : '<' ∉ mnemonic.name := by cases mnemonic <;> decide
      have width : '<' ∉ op_width.elim [] widthLiteral := by
        cases op_width with
        | none => exact List.not_mem_nil
        | some width => cases width <;> decide
      exact spelledOperands_filled unmarked given _ (emptyOperand_append width (emptyOperand_append name empty))

end Sysdarft.Coding
