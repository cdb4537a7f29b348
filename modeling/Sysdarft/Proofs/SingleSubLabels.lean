import Mathlib.Data.List.TakeWhile
import Sysdarft.Proofs.SubLabelScope

/-! # Sub-labels that a line has once

A sub-label that occurs once in a line has its own separator in front. What the other sub-labels of the section take
away is the separator of their occurrences, and only if the line begins with one of them. So the word is replaced as a
whole word unless the sub-label at the beginning of the line comes again right behind it.
-/

namespace Sysdarft.Coding

open Regex Words

/-- No label character comes next. -/
def EndsWord (rest : List Char) : Prop := ∀ c ∈ rest.head?, isLabelChar c = false

instance (rest : List Char) : Decidable (EndsWord rest) :=
  inferInstanceAs (Decidable (∀ c ∈ rest.head?, isLabelChar c = false))

/-- The word behind the next separator. -/
def nextWord (rest : List Char) : Option (List Char) := (split isLabelChar rest).2.head?.map Prod.snd

section Lines

variable {reading : TargetReading} {entry : List Char × List Char} {entries : List (List Char × List Char)}
    {front word rest : List Char} {c : Char}

/-- The word before the first separator, and the one behind the next, are not both to be replaced by the same. -/
def KeptApart (entries : List (List Char × List Char)) (front word rest : List Char) : Prop :=
  ∀ entry ∈ entries, (split isLabelChar front).1 = entry.1 → word ≠ entry.1 ∧ nextWord rest ≠ some entry.1

/-- What replacing one sub-label leaves of a line around a word. -/
structure Around (entry : List Char × List Char) (front word rest : List Char) (c : Char) (rest' : List Char) : Prop where
  separates : isLabelChar c = false
  stop : EndsWord rest'
  /-- Another first word stays, and then the word behind is replaced like the others. -/
  first : (split isLabelChar front).1 ≠ entry.1 →
    (split isLabelChar (putFirst entry front)).1 = (split isLabelChar front).1 ∧
    nextWord rest' = (nextWord rest).map fun run => if run = entry.1 then entry.2 else run
  /-- If the first word is replaced it has no dot. -/
  dotless : (split isLabelChar front).1 = entry.1 → '.' ∉ (split isLabelChar (putFirst entry front)).1

/-- The other entries find the word and what is around it apart. -/
theorem KeptApart.step {c : Char} {rest' : List Char} (sub : Scoped entry) (subs : ∀ entry ∈ entries, Scoped entry)
    (apart : KeptApart (entry :: entries) front word rest) (around : Around entry front word rest c rest') :
    KeptApart entries (putFirst entry front) (if word = entry.1 then entry.2 else word) rest' := by
  intro other member same
  have dotted := (subs other member).dotted
  by_cases here : (split isLabelChar front).1 = entry.1
  · exact absurd (same ▸ dotted) (around.dotless here)
  · obtain ⟨stays, next⟩ := around.first here
    obtain ⟨differs, away⟩ := apart other (List.mem_cons_of_mem _ member) (stays.symm.trans same)
    have visible (run : List Char) (differs : run ≠ other.1) : (if run = entry.1 then entry.2 else run) ≠ other.1 := by
      split_ifs
      · exact (sub.value_ne (subs other member)).symm
      · exact differs
    refine ⟨visible word differs, fun found => ?_⟩
    rw [next] at found
    obtain ⟨run, behind, put⟩ := Option.map_eq_some_iff.mp found
    exact visible run (fun same => away (same ▸ behind)) put

end Lines

/-! ## A line of a section -/

/-- A label with a dot. -/
def IsSubLabel (name : List Char) : Prop := IsLabel name ∧ '.' ∈ name

section Sections

variable {reading : TargetReading} {file section_ : List (List Char)} {line line' : List Char}

theorem IsSubLabel.isRun {name : List Char} (sub : IsSubLabel name) : IsRun isLabelChar name := sub.1.isLabelChar

end Sections

/-! ## A file -/

/-- Spaces and tabs are the only white space in the definitions of sub-labels and in their upper labels. -/
def PlainDefinitions (file : List (List Char)) : Prop :=
  ∀ before line after, file = before ++ line :: after → isSubLine line = true →
    IsRun isLabelChar (upperLabel before) ∧ IsRun isLabelChar (labelOf line)

section Files

variable {reading : TargetReading} {file file' names before after section_ : List (List Char)} {line : List Char}

/-- The sub-labels of a section are defined by lines with the same upper label. -/
theorem exists_definition {sub : List Char} (other : isUpperLine line = false)
    (member : sub ∈ subLabels (sectionOf before line after)) :
    ∃ before' definition after', before ++ line :: after = before' ++ definition :: after' ∧ isSubLine definition = true ∧
      labelOf definition = sub ∧ upperLabel before' = upperLabel before := by
  have stays (file more : List (List Char)) (plain : ∀ line ∈ more, isUpperLine line = false) :
      upperLabel (file ++ more) = upperLabel file := by
    rw [upperLabel, upperLabel, List.reverse_append, List.find?_append,
      List.find?_eq_none.mpr fun line known => by rw [plain line (List.mem_reverse.mp known)]; exact Bool.false_ne_true]
    rfl
  obtain ⟨definition, inside, kind, rfl⟩ := exists_subLine member
  rcases List.mem_append.mp inside with early | late
  · obtain ⟨front, whole⟩ : ∃ front, before = front ++ openSection before := by
      refine ⟨(before.reverse.dropWhile fun line => !isUpperLine line).reverse, ?_⟩
      rw [openSection, ← List.reverse_append, List.takeWhile_append_dropWhile, List.reverse_reverse]
    have plain : ∀ line ∈ openSection before, isUpperLine line = false := by
      intro line known
      have kept := List.mem_takeWhile_imp (List.mem_reverse.mp known)
      rwa [Bool.not_eq_true'] at kept
    obtain ⟨first, last, split⟩ := List.append_of_mem early
    refine ⟨front ++ first, definition, last ++ line :: after, ?_, kind, rfl, ?_⟩
    · conv_lhs => rw [whole, split]
      rw [List.append_assoc, List.append_assoc, List.append_assoc, List.cons_append]
    · rw [stays _ _ fun line known => plain line (split ▸ List.mem_append_left _ known)]
      conv_rhs => rw [whole, stays _ _ plain]
  · rcases List.mem_cons.mp late with rfl | later
    · exact ⟨before, definition, after, rfl, kind, rfl, rfl⟩
    · obtain ⟨first, last, split⟩ := List.append_of_mem later
      have plain : ∀ line ∈ first, isUpperLine line = false := by
        intro line known
        have kept := List.mem_takeWhile_imp (split ▸ List.mem_append_left _ known : line ∈ after.takeWhile _)
        rwa [Bool.not_eq_true'] at kept
      refine ⟨before ++ line :: first, definition, last ++ after.dropWhile fun line => !isUpperLine line, ?_, kind, rfl,
        stays _ _ (List.forall_mem_cons.mpr ⟨other, plain⟩)⟩
      conv_lhs => rw [← @List.takeWhile_append_dropWhile _ (fun line => !isUpperLine line) after, split]
      simp only [List.append_assoc, List.cons_append]

/-- The labels of a section that has a definition are plain. -/
theorem PlainDefinitions.labels (plain : PlainDefinitions (before ++ line :: after)) (other : isUpperLine line = false)
    (nonempty : subLabels (sectionOf before line after) ≠ []) :
    PlainLabels (upperLabel before) (sectionOf before line after) := by
  have each : ∀ sub ∈ subLabels (sectionOf before line after), IsRun isLabelChar (upperLabel before) ∧
      IsRun isLabelChar sub := by
    intro sub member
    obtain ⟨before', definition, after', whole, kind, rfl, same⟩ := exists_definition other member
    rw [← same]
    exact plain before' definition after' whole kind
  obtain ⟨sub, member⟩ := List.exists_mem_of_ne_nil _ nonempty
  exact ⟨(each sub member).1, fun sub member => (each sub member).2⟩

end Files

end Sysdarft.Coding
