import Sysdarft.Coding.PreProcessor
import Sysdarft.Proofs.LineText

/-! # Replacing whole words

`replace_whole_word` matches the character in front of a word together with the word, and puts one character back
for all matches of the text: that in front of the first. A dollar sign put back that way stands in front of the
replacement, where the format of `std::regex_replace` may read both as a reference.
-/

namespace Sysdarft.Coding

open Words Regex

/-- Every occurrence of a word with no label character around it is replaced. -/
def replacedWords (target replacement text : List Char) : List Char :=
  mapRuns isLabelChar (fun run => if run = target then replacement else run) text

/-- What stands in front of the occurrences: nothing, or one character. -/
abbrev wordFronts (target text : List Char) : List (List Char) := fronts isLabelChar target text

/-! ## The replacement that is put -/

/-- A match of a target with what stands in front of it. -/
def wordMatch (target before front rest : List Char) : Found :=
  { before := before, text := front ++ target, rest := rest, captures := [(1, target)] }

/-- What is put for an occurrence, when it depends on no other part of the text. -/
def putFront (target replacement first front : List Char) : List Char :=
  (wordMatch target [] front []).format (first ++ escapeDollars replacement)

/-- The replacement behind its leading dollar signs. -/
def afterDollars (replacement : List Char) : List Char := replacement.dropWhile (· == '$')

/-- A dollar sign in front of the text refers to what is around a match. -/
def RefersAround (text : List Char) : Prop := text.head? = some '\x60' ∨ text.head? = some '\''

/-- A dollar sign in front of the text refers to something. -/
def Refers (text : List Char) : Prop := ∃ c ∈ text.head?, c = '&' ∨ c = '\x60' ∨ c = '\'' ∨ Numerals.isDecimal c = true

section Formats

variable {target replacement first front : List Char}

theorem format_plain (found : Found) (plain : first ≠ ['$']) (short : first = [] ∨ ∃ c, first = [c]) :
    found.format (first ++ escapeDollars replacement) = first ++ replacement := by
  rcases short with rfl | ⟨c, rfl⟩
  · exact format_escapeDollars found replacement
  · exact format_cons_escapeDollars found (fun same => plain (congrArg ([·]) same)) replacement

/-- Only the match itself matters, unless the format refers to what is around it. -/
theorem format_wordMatch (short : first = [] ∨ ∃ c, first = [c])
    (inside : first = ['$'] → ¬ RefersAround (afterDollars replacement))
    (before rest : List Char) :
    (wordMatch target before front rest).format (first ++ escapeDollars replacement) =
      putFront target replacement first front := by
  rw [putFront]
  by_cases plain : first = ['$']
  · subst plain
    have same : (wordMatch target before front rest).reference (afterDollars replacement) =
        (wordMatch target [] front []).reference (afterDollars replacement) := by
      have around := inside rfl
      cases tail : afterDollars replacement with
      | nil => rfl
      | cons c text =>
        rw [tail] at around
        simp only [RefersAround, List.head?_cons, Option.some.injEq, not_or] at around
        simp only [Found.reference, if_neg around.1, if_neg around.2]
        rfl
    rw [afterDollars] at same
    rw [List.singleton_append, format_dollar_escapeDollars, format_dollar_escapeDollars, same]
  · rw [format_plain _ plain short, format_plain _ plain short]

end Formats

/-! ## The result -/

section Result

variable {reading : TargetReading} {target replacement text : List Char}

theorem not_isLabelChar_bracket {c : Char} (member : isLabelChar c = true) : "[]{}".toList.contains c = false := by
  rw [← Bool.not_eq_true, List.contains_iff_mem]
  intro bracket
  simp only [show "[]{}".toList = ['[', ']', '{', '}'] from rfl, List.mem_cons, List.not_mem_nil, or_false] at bracket
  rcases bracket with rfl | rfl | rfl | rfl <;> exact absurd member (by decide)

/-- A word of label characters is searched for as it is. -/
theorem targetRegex_word (all : ∀ c ∈ target, isLabelChar c = true) : targetRegex reading target = some (lit target) := by
  have plain : (target.all fun c => !("[]{}".toList.contains c)) = true := by
    rw [List.all_eq_true]
    intro c member
    rw [not_isLabelChar_bracket (all c member)]
    rfl
  rw [targetRegex, if_pos plain]

theorem wordFronts_short {front : List Char} (member : front ∈ wordFronts target text) :
    front = [] ∨ ∃ c, isLabelChar c = false ∧ front = [c] := by
  obtain ⟨first, later, whole, none | start, single⟩ := fronts_cases isLabelChar target text
  · rw [wordFronts, whole, none, List.nil_append] at member
    exact .inr (single front member)
  · rw [wordFronts, whole, start] at member
    rcases List.mem_cons.mp member with empty | later
    · exact .inl empty
    · exact .inr (single front later)

/-- Without its word, a match is what stands in front. -/
theorem replaceAll_front (all : ∀ c ∈ target, isLabelChar c = true) (nonempty : target ≠ []) {front : List Char}
    (short : front = [] ∨ ∃ c, isLabelChar c = false ∧ front = [c]) : replaceAll (front ++ target) target [] = front := by
  rw [replaceAll_eq]
  rcases short with rfl | ⟨c, separates, rfl⟩
  · exact Text.replaceAll_self nonempty
  · have cut := @replaceAll_eq_mapRuns isLabelChar target [] all ([] ++ c :: target)
    rw [mapRuns_cons (fun d member => absurd member List.not_mem_nil) separates, mapRuns_run all,
      Text.replaceAll_self nonempty] at cut
    have empty : Text.replaceAll target [] [] = [] := by
      rw [Text.replaceAll, if_neg nonempty]
      rfl
    rwa [empty] at cut

/-- What replacing a word gives: one format for all occurrences, made from what stands in front of the first. -/
theorem replaceWholeWord_eq (all : ∀ c ∈ target, isLabelChar c = true) (nonempty : target ≠ [])
    (inside : (wordFronts target text).head? = some ['$'] → ¬ RefersAround (afterDollars replacement)) :
    replaceWholeWord reading text target replacement =
      .ok (((wordFronts target text).head?.map fun first =>
        putWords isLabelChar target (putFront target replacement first) text).getD text) := by
  rw [replaceWholeWord, targetRegex_word all]
  dsimp only
  have search := @searchAhead_wholeWord isLabelChar target all nonempty text
  cases found : searchAhead (wholeWord isLabelChar (lit target)) (boundary isLabelChar) text with
  | none =>
    rw [found] at search
    have none : (wordFronts target text).head? = none := Option.map_eq_none_iff.mp search.symm
    rw [none]
    rfl
  | some hit =>
    rw [found] at search
    obtain ⟨first, head, whole⟩ := Option.map_eq_some_iff.mp search.symm
    have short := wordFronts_short (List.mem_of_mem_head? head)
    have front : replaceAll hit.text target [] = first := by
      rw [← whole]
      exact replaceAll_front all nonempty short
    have single : first = [] ∨ ∃ c, first = [c] := short.imp_right fun ⟨c, _, same⟩ => ⟨c, same⟩
    have put := @replaceAhead_wholeWord isLabelChar target (fun found => found.format (first ++ escapeDollars replacement)) _
      all nonempty
      (fun front before rest => format_wordMatch single (fun dollar => inside (by rw [← dollar]; exact head)) before rest)
        text
    dsimp only
    rw [front, show (wordFronts target text).head? = some first from head, Option.map_some, Option.getD_some, ← put]
    rcases single with rfl | ⟨c, rfl⟩
    · rfl
    · rfl

end Result

/-! ## When it is what the documentation says -/

/-- A reference to the whole match that has the target's own text. -/
def Echoes (target text : List Char) : Prop :=
  (target = ['0'] ∧ ∃ rest, text = '0' :: rest ∧ ∀ c ∈ rest.head?, Numerals.isDecimal c = false) ∨
    target = ['0', '0'] ∧ ∃ rest, text = '0' :: '0' :: rest

/-- The occurrences have the same in front of them, and a dollar sign there refers to nothing, or to the text that
it stands in front of. -/
structure Replaceable (target replacement text : List Char) : Prop where
  literal : (wordFronts target text).head? = some ['$'] → Refers (afterDollars replacement) →
    Echoes target (afterDollars replacement)
  alike : (∀ front ∈ wordFronts target text, some front = (wordFronts target text).head?) ∨
    (wordFronts target text).head? = some ['$'] ∧ Refers (afterDollars replacement) ∧ replacement.head? ≠ some '$'

section Exactness

variable {target replacement text first : List Char}

theorem putFront_plain (plain : first ≠ ['$']) (short : first = [] ∨ ∃ c, first = [c]) (front : List Char) :
    putFront target replacement first front = first ++ replacement := format_plain _ plain short

theorem putFront_dollar (target replacement front : List Char) :
    putFront target replacement ['$'] front =
      replacement.takeWhile (· == '$') ++ (((wordMatch target [] front []).reference (afterDollars replacement)).1 ++
        (afterDollars replacement).drop ((wordMatch target [] front []).reference (afterDollars replacement)).2) :=
  format_dollar_escapeDollars _ replacement

/-- Dollar signs can be shifted. -/
theorem dollars_comm (text : List Char) : text.takeWhile (· == '$') ++ ['$'] = '$' :: text.takeWhile (· == '$') := by
  induction text with
  | nil => rfl
  | cons c text ih =>
    rw [List.takeWhile_cons]
    split_ifs with dollar
    · obtain rfl := beq_iff_eq.mp dollar
      exact congrArg ('$' :: ·) ih
    · rfl

theorem takeWhile_append_afterDollars (replacement : List Char) :
    replacement.takeWhile (· == '$') ++ afterDollars replacement = replacement := List.takeWhile_append_dropWhile

/-- The same is put everywhere: that is right when it belongs in front of every occurrence. -/
theorem putWords_constant {out : List Char → List Char} (constant : ∀ front, out front = first ++ replacement)
    (head : (wordFronts target text).head? = some first) :
    putWords isLabelChar target out text = replacedWords target replacement text ↔
      ∀ front ∈ wordFronts target text, front = first := by
  rw [replacedWords, ← putWords_eq_mapRuns]
  constructor
  · intro same
    obtain ⟨start, later, whole, shape, single⟩ := fronts_cases isLabelChar target text
    have total := @length_putWords isLabelChar target out (fun front => front ++ replacement) text
    rw [same] at total
    simp only [constant, List.length_append] at total
    rcases shape with rfl | rfl
    · have lengths : ∀ front ∈ fronts isLabelChar target text, (out front).length = (front ++ replacement).length := by
        intro front member
        rw [whole, List.nil_append] at member
        have inside : first ∈ later := by
          have member := List.mem_of_mem_head? head
          rwa [wordFronts, whole, List.nil_append] at member
        obtain ⟨c, -, rfl⟩ := single front member
        obtain ⟨d, -, rfl⟩ := single first inside
        rw [constant]
        rfl
      intro front member
      have equal := (putWords_inj lengths).mp same front member
      rw [constant] at equal
      exact (List.append_cancel_right equal).symm
    · rw [wordFronts, whole] at head
      obtain rfl := Option.some.inj head
      have alone : later = [] := by
        cases later with
        | nil => rfl
        | cons front later =>
          obtain ⟨c, -, rfl⟩ := single front List.mem_cons_self
          rw [whole] at total
          simp only [List.map_append, List.map_cons, List.map_nil, List.sum_append, List.sum_cons, List.sum_nil,
            List.length_nil,
            List.length_cons] at total
          have more : (later.map fun _ => 0 + replacement.length).sum ≤
            (later.map fun front => front.length + replacement.length).sum :=
            List.sum_le_sum fun front _ => by omega
          omega
      intro front member
      rw [wordFronts, whole, alone] at member
      exact List.mem_singleton.mp member
  · intro alike
    have pieces : ∀ front ∈ fronts isLabelChar target text, out front = front ++ replacement := by
      intro front member
      rw [constant, alike front member]
    exact (putWords_inj fun front member => by rw [pieces front member]).mpr pieces

/-- Pieces of one length behind single characters. -/
theorem putWords_single {out : List Char → List Char} {size : ℕ}
    (single : ∀ front ∈ wordFronts target text, front.length = 1)
    (constant : ∀ front ∈ wordFronts target text, (out front).length = size) :
    putWords isLabelChar target out text = replacedWords target replacement text ↔
      ∀ front ∈ wordFronts target text, out front = front ++ replacement := by
  rw [replacedWords, ← putWords_eq_mapRuns]
  constructor
  · intro same
    have total := @length_putWords isLabelChar target out (fun front => front ++ replacement) text
    rw [same] at total
    have expected : ∀ front ∈ wordFronts target text, (front ++ replacement).length = 1 + replacement.length := by
      intro front member
      rw [List.length_append, single front member]
    rw [List.map_congr_left expected, List.map_congr_left constant, List.map_const', List.map_const', List.sum_replicate,
      List.sum_replicate, Nat.add_left_cancel_iff, smul_eq_mul, smul_eq_mul] at total
    have lengths : ∀ front ∈ wordFronts target text, (out front).length = (front ++ replacement).length := by
      intro front member
      have positive : 0 < (wordFronts target text).length := List.length_pos_of_mem member
      rw [constant front member, expected front member]
      exact (Nat.eq_of_mul_eq_mul_left positive total).symm
    exact (putWords_inj lengths).mp same
  · intro pieces
    exact (putWords_inj fun front member => by rw [pieces front member]).mpr pieces

/-- The group that a number refers to, without the character in front if it is not the whole match. -/
theorem group_wordMatch (index : ℕ) : (∀ front, (wordMatch target [] front []).group index = front ++ target) ∧ index = 0 ∨
    ∃ group, (group = target ∨ group = []) ∧ (∀ front, (wordMatch target [] front []).group index = group) ∧ index ≠ 0 := by
  cases index with
  | zero => exact .inl ⟨fun _ => rfl, rfl⟩
  | succ index =>
    cases index with
    | zero => exact .inr ⟨target, .inl rfl, fun _ => rfl, one_ne_zero⟩
    | succ index => exact .inr ⟨[], .inr rfl, fun _ => rfl, Nat.succ_ne_zero _⟩

theorem digitValue_eq_zero {c : Char} (decimal : Numerals.isDecimal c = true) : Numerals.digitValue c = 0 ↔ c = '0' := by
  constructor
  · intro zero
    obtain ⟨low, high⟩ := of_decide_eq_true decimal
    rw [Numerals.digitValue, if_pos decimal] at zero
    have low : 48 ≤ c.toNat := low
    exact Char.toNat_inj.mp (show c.toNat = '0'.toNat by rw [show '0'.toNat = 48 from rfl]; omega)
  · rintro rfl
    rfl

theorem not_decimal_special {c : Char} (decimal : Numerals.isDecimal c = true) :
    c ≠ '$' ∧ c ≠ '&' ∧ c ≠ '\x60' ∧ c ≠ '\'' := by
  refine ⟨?_, ?_, ?_, ?_⟩
  all_goals
    rintro rfl
    exact absurd decimal (by decide)

/-- One digit is the number when no digit follows. -/
theorem reference_digit (found : Found) {c : Char} {rest : List Char} (decimal : Numerals.isDecimal c = true)
    (alone : ∀ d ∈ rest.head?, Numerals.isDecimal d = false) :
    found.reference (c :: rest) = (found.group (Numerals.digitValue c), 1) := by
  obtain ⟨dollar, all, before, behind⟩ := not_decimal_special decimal
  cases rest with
  | nil => rw [Found.reference, if_neg dollar, if_neg all, if_neg before, if_neg behind, if_pos decimal]
  | cons d rest =>
    rw [Found.reference, if_neg dollar, if_neg all, if_neg before, if_neg behind, if_pos decimal,
      if_neg (Bool.not_eq_true _ ▸ alone d rfl)]

/-- Two digits are one number. -/
theorem reference_digits (found : Found) {c d : Char} {rest : List Char} (decimal : Numerals.isDecimal c = true)
    (second : Numerals.isDecimal d = true) :
    found.reference (c :: d :: rest) = (found.group (10 * Numerals.digitValue c + Numerals.digitValue d), 2) := by
  obtain ⟨dollar, all, before, behind⟩ := not_decimal_special decimal
  rw [Found.reference, if_neg dollar, if_neg all, if_neg before, if_neg behind, if_pos decimal, if_pos second]

/-- A reference to the whole match or to a group; `zero` says when the number is that of the whole match. -/
theorem reference_group {tail : List Char} {number size : ℕ}
    (reads : ∀ front, (wordMatch target [] front []).reference tail = ((wordMatch target [] front []).group number, size))
    (whole : number = 0 → (target = tail.take size ↔ Echoes target tail)) (zero : Echoes target tail → number = 0) :
    (∀ front, (wordMatch target [] front []).reference tail = (front ++ target, size)) ∧
    (target = tail.take size ↔ Echoes target tail) ∨
      ∃ group, (group = target ∨ group = []) ∧ (∀ front, (wordMatch target [] front []).reference tail = (group, size)) ∧
        ¬ Echoes target tail := by
  rcases @group_wordMatch target number with ⟨puts, same⟩ | ⟨group, kind, puts, other⟩
  · exact .inl ⟨fun front => (reads front).trans (congrArg (·, size) (puts front)), whole same⟩
  · exact .inr ⟨group, kind, fun front => (reads front).trans (congrArg (·, size) (puts front)), fun echoes =>
      other (zero echoes)⟩

/-- What a reference puts: the whole match, which may have the text of the reference, or something without the
character in front. -/
theorem reference_cases (all : ∀ c ∈ target, isLabelChar c = true) {tail : List Char} (refers : Refers tail)
    (inside : ¬ RefersAround tail) :
    ∃ size, 0 < size ∧ size ≤ tail.length ∧
      ((∀ front, (wordMatch target [] front []).reference tail = (front ++ target, size)) ∧
      (target = tail.take size ↔ Echoes target tail) ∨
        ∃ group, (group = target ∨ group = []) ∧ (∀ front, (wordMatch target [] front []).reference tail = (group, size)) ∧
          ¬ Echoes target tail) := by
  obtain ⟨c, head, kind⟩ := refers
  obtain ⟨rest, rfl⟩ : ∃ rest, tail = c :: rest := by
    cases tail with
    | nil => exact absurd head (Option.not_mem_none c)
    | cons d rest => exact ⟨rest, congrArg (· :: rest) (Option.some.inj head)⟩
  rcases kind with rfl | rfl | rfl | decimal
  · refine ⟨1, one_pos, Nat.le_add_left 1 _, .inl ⟨fun _ => rfl, ?_⟩⟩
    constructor
    · rintro rfl
      exact absurd (all '&' List.mem_cons_self) (by decide)
    · rintro (⟨-, _, same, -⟩ | ⟨-, _, same⟩)
      · exact absurd (List.head_eq_of_cons_eq same) (by decide)
      · exact absurd (List.head_eq_of_cons_eq same) (by decide)
  · exact absurd (.inl rfl) inside
  · exact absurd (.inr rfl) inside
  · by_cases alone : ∀ d ∈ rest.head?, Numerals.isDecimal d = false
    · refine ⟨1, one_pos, Nat.le_add_left 1 _, reference_group (fun front => reference_digit _ decimal alone) ?_ ?_⟩
      · intro zero
        obtain rfl := (digitValue_eq_zero decimal).mp zero
        constructor
        · exact fun same => .inl ⟨same, rest, rfl, alone⟩
        · rintro (⟨same, -⟩ | ⟨-, later, same⟩)
          · exact same
          · obtain rfl := List.tail_eq_of_cons_eq same
            exact absurd (alone '0' rfl) (by decide)
      · rintro (⟨-, later, same, -⟩ | ⟨-, later, same⟩)
        · exact (digitValue_eq_zero decimal).mpr (List.head_eq_of_cons_eq same)
        · exact (digitValue_eq_zero decimal).mpr (List.head_eq_of_cons_eq same)
    · obtain ⟨d, later, rfl, second⟩ : ∃ d later, rest = d :: later ∧ Numerals.isDecimal d = true := by
        cases rest with
        | nil => exact absurd (fun d member => absurd member (Option.not_mem_none d)) alone
        | cons d later =>
          refine ⟨d, later, rfl, ?_⟩
          by_contra no
          exact alone fun e same => (Option.some.inj same) ▸ Bool.not_eq_true _ ▸ no
      refine ⟨2, two_pos, Nat.le_add_left 2 _, reference_group (fun front => reference_digits _ decimal second) ?_ ?_⟩
      · intro zero
        obtain rfl := (digitValue_eq_zero decimal).mp (by omega)
        obtain rfl := (digitValue_eq_zero second).mp (by omega)
        constructor
        · exact fun same => .inr ⟨same, later, rfl⟩
        · rintro (⟨-, rest, same, alone⟩ | ⟨same, -⟩)
          · obtain rfl := List.tail_eq_of_cons_eq same
            exact absurd (alone '0' rfl) (by decide)
          · exact same
      · rintro (⟨-, rest, same, alone⟩ | ⟨-, rest, same⟩)
        · obtain rfl := List.tail_eq_of_cons_eq same
          exact absurd (alone d rfl) (by rw [second]; decide)
        · have first := List.head_eq_of_cons_eq same
          have next := List.head_eq_of_cons_eq (List.tail_eq_of_cons_eq same)
          rw [(digitValue_eq_zero decimal).mpr first, (digitValue_eq_zero second).mpr next]

/-- Without the word, nothing is put. -/
theorem putWords_none {out : List Char → List Char} (none : wordFronts target text = []) :
    putWords isLabelChar target out text = text := by
  have away : ∀ front, front ∉ fronts isLabelChar target text := by
    intro front member
    rw [wordFronts] at none
    exact List.not_mem_nil (none ▸ member)
  refine Eq.trans ?_ (@putWords_target isLabelChar target text)
  exact (putWords_inj fun front member => absurd member (away front)).mpr fun front member => absurd member (away front)

/-- A text without the word stays. -/
theorem replacedWords_none (none : wordFronts target text = []) : replacedWords target replacement text = text := by
  rw [replacedWords, ← putWords_eq_mapRuns, putWords_none none]

/-- A dollar sign that refers to nothing stays. -/
theorem reference_nothing (found : Found) (refers : ¬ Refers (afterDollars replacement)) :
    found.reference (afterDollars replacement) = (['$'], 0) := by
  cases tail : afterDollars replacement with
  | nil => rfl
  | cons c rest =>
    have visible : c ≠ '$' := by
      have stop := List.head?_dropWhile_not (· == '$') replacement
      rw [afterDollars] at tail
      rw [tail] at stop
      exact beq_eq_false_iff_ne.mp stop
    rw [tail] at refers
    have nothing : ¬ (c = '&' ∨ c = '\x60' ∨ c = '\'' ∨ Numerals.isDecimal c = true) := fun kind => refers ⟨c, rfl, kind⟩
    simp only [not_or] at nothing
    rw [Found.reference.eq_def]
    dsimp only
    rw [if_neg visible, if_neg nothing.1, if_neg nothing.2.1, if_neg nothing.2.2.1, if_neg nothing.2.2.2]

/-- A dollar sign behind the leading ones is one more of them. -/
theorem dollars_shift (replacement piece : List Char) :
    replacement.takeWhile (· == '$') ++ '$' :: piece = '$' :: (replacement.takeWhile (· == '$') ++ piece) := by
  rw [List.append_cons, dollars_comm]
  rfl

/-- What is behind the leading dollar signs and one more. -/
theorem dollars_cancel {replacement piece : List Char} :
    replacement.takeWhile (· == '$') ++ '$' :: piece = '$' :: replacement ↔ piece = afterDollars replacement := by
  rw [dollars_shift, List.cons_inj_right]
  constructor
  · intro same
    exact List.append_cancel_left (same.trans (takeWhile_append_afterDollars replacement).symm)
  · rintro rfl
    exact takeWhile_append_afterDollars replacement

/-- Without a reference the replacement is put as it is, behind what stands in front of the first occurrence. -/
theorem putFront_constant (short : first = [] ∨ ∃ c, first = [c])
    (nothing : first = ['$'] → ¬ Refers (afterDollars replacement))
    (front : List Char) : putFront target replacement first front = first ++ replacement := by
  by_cases dollar : first = ['$']
  · subst dollar
    rw [putFront_dollar, reference_nothing _ (nothing rfl)]
    exact dollars_cancel.mpr rfl
  · exact putFront_plain dollar short front

/-- A reference puts something else, unless it has the text of the whole match. -/
theorem putWords_refers (all : ∀ c ∈ target, isLabelChar c = true) (nonempty : target ≠ [])
    (head : (wordFronts target text).head? = some ['$']) (refers : Refers (afterDollars replacement))
    (inside : ¬ RefersAround (afterDollars replacement)) :
    putWords isLabelChar target (putFront target replacement ['$']) text = replacedWords target replacement text ↔
      Replaceable target replacement text := by
  have single : ∀ front ∈ wordFronts target text, ∃ c, front = [c] := by
    obtain ⟨start, later, whole, shape, single⟩ := fronts_cases isLabelChar target text
    rcases shape with rfl | rfl
    · intro front member
      rw [wordFronts, whole, List.nil_append] at member
      obtain ⟨c, -, rfl⟩ := single front member
      exact ⟨c, rfl⟩
    · rw [wordFronts, whole, List.singleton_append, List.head?_cons] at head
      exact absurd (Option.some.inj head) (List.cons_ne_nil _ _).symm
  have one : ∀ front ∈ wordFronts target text, front.length = 1 := by
    intro front member
    obtain ⟨c, rfl⟩ := single front member
    rfl
  have first := List.mem_of_mem_head? (show ['$'] ∈ (wordFronts target text).head? from head)
  obtain ⟨size, positive, within, ⟨whole, echo⟩ | ⟨group, kind, other, silent⟩⟩ := reference_cases all refers inside
  · have put : ∀ front, putFront target replacement ['$'] front =
        replacement.takeWhile (· == '$') ++ (front ++ target ++ (afterDollars replacement).drop size) := by
      intro front
      rw [putFront_dollar, whole]
    have lengths : ∀ front ∈ wordFronts target text, (putFront target replacement ['$'] front).length =
        (replacement.takeWhile (· == '$')).length + (1 + target.length + ((afterDollars replacement).drop size).length) := by
      intro front member
      rw [put, List.length_append, List.length_append, List.length_append, one front member]
    rw [putWords_single one lengths]
    constructor
    · intro pieces
      have echoes : Echoes target (afterDollars replacement) := by
        have piece := pieces _ first
        rw [put] at piece
        have behind := dollars_cancel.mp piece
        nth_rewrite 2 [← List.take_append_drop _ (afterDollars replacement)] at behind
        exact echo.mp (List.append_cancel_right behind)
      refine ⟨fun _ _ => echoes, ?_⟩
      by_cases leading : replacement.head? = some '$'
      · refine .inl fun front member => ?_
        obtain ⟨c, rfl⟩ := single front member
        have piece := pieces _ member
        obtain ⟨rest, rfl⟩ : ∃ rest, replacement = '$' :: rest := List.head?_eq_some_iff.mp leading
        rw [put] at piece
        have same : '$' = c := List.head_eq_of_cons_eq piece
        rw [head, same]
      · exact .inr ⟨head, refers, leading⟩
    · intro replaceable front member
      have echoes := echo.mpr (replaceable.literal head refers)
      have tail : target ++ (afterDollars replacement).drop size = afterDollars replacement := by
        nth_rewrite 1 [echoes]
        exact List.take_append_drop _ _
      rw [put, List.append_assoc, tail]
      rcases replaceable.alike with alike | ⟨-, -, leading⟩
      · obtain rfl := Option.some.inj ((alike front member).trans head)
        exact dollars_cancel.mpr rfl
      · have none : replacement.takeWhile (· == '$') = [] := by
          cases replacement with
          | nil => rfl
          | cons c rest => exact List.takeWhile_cons_of_neg fun dollar => leading (congrArg some (beq_iff_eq.mp dollar))
        have same := takeWhile_append_afterDollars replacement
        rw [none, List.nil_append] at same ⊢
        rw [same]
  · have put : ∀ front, putFront target replacement ['$'] front =
        replacement.takeWhile (· == '$') ++ (group ++ (afterDollars replacement).drop size) := by
      intro front
      rw [putFront_dollar, other]
    have differs : group ++ (afterDollars replacement).drop size ≠ '$' :: afterDollars replacement := by
      rcases kind with rfl | rfl
      · intro same
        cases group with
        | nil => exact nonempty rfl
        | cons c rest =>
          have dollar := all c List.mem_cons_self
          rw [List.head_eq_of_cons_eq same] at dollar
          exact absurd dollar (by decide)
      · intro same
        have lengths := congrArg List.length same
        rw [List.nil_append, List.length_drop, List.length_cons] at lengths
        omega
    rw [putWords_single one fun front _ => congrArg List.length (put front)]
    refine ⟨fun pieces => ?_, fun replaceable => absurd (replaceable.literal head refers) silent⟩
    have piece := pieces _ first
    rw [put] at piece
    have front : ['$'] ++ replacement = replacement.takeWhile (· == '$') ++ '$' :: afterDollars replacement :=
      (dollars_cancel.mpr rfl).symm
    exact absurd (List.append_cancel_left (piece.trans front)) differs

theorem refers_of_refersAround {tail : List Char} (around : RefersAround tail) : Refers tail := by
  rcases around with before | behind
  · exact ⟨'\x60', before, .inr (.inl rfl)⟩
  · exact ⟨'\'', behind, .inr (.inr (.inl rfl))⟩

/-- The text around a match is no echo of a word. -/
theorem not_echoes_of_refersAround {tail : List Char} (around : RefersAround tail) : ¬ Echoes target tail := by
  rintro (⟨-, rest, rfl, -⟩ | ⟨-, rest, rfl⟩)
  all_goals
    rcases around with same | same
    all_goals exact absurd (Option.some.inj same) (by decide)

theorem Replaceable.inside (replaceable : Replaceable target replacement text)
    (head : (wordFronts target text).head? = some ['$']) :
    ¬ RefersAround (afterDollars replacement) :=
  fun around => not_echoes_of_refersAround around (replaceable.literal head (refers_of_refersAround around))

/-- The words are replaced exactly, or not, when no dollar sign refers to what is around a match. -/
theorem replaceWholeWord_iff {reading : TargetReading} (all : ∀ c ∈ target, isLabelChar c = true) (nonempty : target ≠ [])
    (inside : (wordFronts target text).head? = some ['$'] → ¬ RefersAround (afterDollars replacement)) :
    replaceWholeWord reading text target replacement = .ok (replacedWords target replacement text) ↔
      Replaceable target replacement text := by
  rw [replaceWholeWord_eq all nonempty inside, Except.ok.injEq]
  cases head : (wordFronts target text).head? with
  | none =>
    have none := List.head?_eq_none_iff.mp head
    rw [Option.map_none, Option.getD_none, replacedWords_none none]
    refine iff_of_true rfl ⟨fun some => absurd (head.symm.trans some) (Option.some_ne_none _).symm,
      .inl fun front member => ?_⟩
    rw [none] at member
    exact absurd member List.not_mem_nil
  | some first =>
    rw [Option.map_some, Option.getD_some]
    have short : first = [] ∨ ∃ c, first = [c] :=
      (wordFronts_short (List.mem_of_mem_head? head)).imp_right fun ⟨c, _, same⟩ => ⟨c, same⟩
    by_cases nothing : first = ['$'] → ¬ Refers (afterDollars replacement)
    · rw [putWords_constant (putFront_constant short nothing) head]
      constructor
      · intro alike
        refine ⟨fun dollar refers => ?_, .inl fun front member => by rw [alike front member, head]⟩
        exact absurd refers (nothing (Option.some.inj (head.symm.trans dollar)))
      · rintro ⟨-, alike | ⟨dollar, refers, -⟩⟩ front member
        · exact Option.some.inj ((alike front member).trans head)
        · exact absurd refers (nothing (Option.some.inj (head.symm.trans dollar)))
    · push Not at nothing
      obtain ⟨rfl, refers⟩ := nothing
      exact putWords_refers all nonempty head refers (inside head)

/-- The result when the replacement begins with nothing that a dollar sign in front of it could refer to. -/
theorem replaceWholeWord_plain {reading : TargetReading} (all : ∀ c ∈ target, isLabelChar c = true) (nonempty : target ≠ [])
    (plain : ¬ Refers (afterDollars replacement)) (text : List Char) :
    replaceWholeWord reading text target replacement =
      .ok (putWords isLabelChar target (fun _ => (wordFronts target text).headD [] ++ replacement) text) := by
  rw [replaceWholeWord_eq all nonempty fun _ around => plain (refers_of_refersAround around), Except.ok.injEq]
  cases head : (wordFronts target text).head? with
  | none => rw [Option.map_none, Option.getD_none, putWords_none (List.head?_eq_none_iff.mp head)]
  | some first =>
    have short : first = [] ∨ ∃ c, first = [c] :=
      (wordFronts_short (List.mem_of_mem_head? head)).imp_right fun ⟨c, _, same⟩ => ⟨c, same⟩
    rw [Option.map_some, Option.getD_some, List.headD_eq_head?_getD, head, Option.getD_some]
    exact congrArg (putWords isLabelChar target · text) (funext (putFront_constant short fun _ => plain))

end Exactness

/-- Whole words are replaced exactly when all occurrences have the same character in front and a dollar sign there does
not become a reference. Where the dollar sign refers to the text around the match, the result is the right one only by
a coincidence of that text with the dollar sign and the replacement. -/
theorem wholeWord_exact (reading : TargetReading) (text target replacement : List Char)
    (all : ∀ c ∈ target, isLabelChar c = true)
    (nonempty : target ≠ []) :
    (Replaceable target replacement text →
      replaceWholeWord reading text target replacement = .ok (replacedWords target replacement text)) ∧
    (replaceWholeWord reading text target replacement = .ok (replacedWords target replacement text) →
      Replaceable target replacement text ∨
        (wordFronts target text).head? = some ['$'] ∧ RefersAround (afterDollars replacement)) := by
  constructor
  · intro replaceable
    exact (replaceWholeWord_iff all nonempty replaceable.inside).mpr replaceable
  · intro exact
    by_cases inside : (wordFronts target text).head? = some ['$'] → ¬ RefersAround (afterDollars replacement)
    · exact .inl ((replaceWholeWord_iff all nonempty inside).mp exact)
    · push Not at inside
      exact .inr inside

theorem wholeWord_exact_spaces :
    replaceWholeWord (fun _ => none) "MOV foo, foo".toList "foo".toList "$&".toList = .ok "MOV $&, $&".toList :=
  (wholeWord_exact (fun _ => none) "MOV foo, foo".toList "foo".toList "$&".toList (by decide) (by decide)).1
    ⟨fun dollar => absurd dollar (by decide), .inl (by decide)⟩

/-- What stands in front of the first occurrence replaces what stands in front of the second. -/
theorem not_wholeWord_front :
    replaceWholeWord (fun _ => none) "ADD foo+foo".toList "foo".toList "1".toList = .ok "ADD 1 1".toList ∧
      replacedWords "foo".toList "1".toList "ADD foo+foo".toList = "ADD 1+1".toList := by
  decide

end Sysdarft.Coding
