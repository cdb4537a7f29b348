import Sysdarft.Library.Numerals
import Sysdarft.Library.Regex
import Sysdarft.Library.Words

/-! # Replacing matches

`std::regex_replace` in its default format, for patterns that end in a lookahead. A match is put where it was
found, as the format says; the search goes on behind it, where the beginning of the subject is no longer matched.
A match of the empty text is followed by a match that is not empty at the same position, if there is one.

`wholeWord` finds the occurrences of a word that have no word character around them, together with the character
in front.
-/

open Words

namespace Regex

/-! ## Formats -/

/-- A group of a match; the group `0` is the match. -/
def Found.group (found : Found) (index : ℕ) : List Char := if index = 0 then found.text else found.captures.get index

/-- What a dollar sign in front of a text stands for, and how many characters of the text belong to it. -/
def Found.reference (found : Found) : List Char → List Char × ℕ
  | [] => (['$'], 0)
  | c :: rest =>
    if c = '$' then (['$'], 1)
    else if c = '&' then (found.text, 1)
    else if c = '\x60' then (found.before, 1)
    else if c = '\'' then (found.rest, 1)
    else if Numerals.isDecimal c then
      match rest with
      | d :: _ =>
        if Numerals.isDecimal d then (found.group (10 * Numerals.digitValue c + Numerals.digitValue d), 2)
        else (found.group (Numerals.digitValue c), 1)
      | [] => (found.group (Numerals.digitValue c), 1)
    else (['$'], 0)

/-- Expand a format; `skip` characters still belong to the reference read last. -/
def Found.formatFrom (found : Found) : ℕ → List Char → List Char
  | _, [] => []
  | skip + 1, _ :: rest => found.formatFrom skip rest
  | 0, c :: rest =>
    if c = '$' then (found.reference rest).1 ++ found.formatFrom (found.reference rest).2 rest
    else c :: found.formatFrom 0 rest

/-- `match_results::format`. -/
def Found.format (found : Found) (format : List Char) : List Char := found.formatFrom 0 format

/-- Double the dollar signs. -/
def escapeDollars (text : List Char) : List Char := text.flatMap fun c => if c = '$' then ['$', '$'] else [c]

section Formats

variable {found : Found}

theorem escapeDollars_cons {c : Char} (plain : c ≠ '$') (text : List Char) :
    escapeDollars (c :: text) = c :: escapeDollars text := by
  rw [escapeDollars, List.flatMap_cons, if_neg plain]
  rfl

/-- Doubled dollar signs stand for themselves. -/
theorem format_escapeDollars (found : Found) (text : List Char) : found.format (escapeDollars text) = text := by
  rw [Found.format]
  induction text with
  | nil => rfl
  | cons c text ih =>
    by_cases dollar : c = '$'
    · subst dollar
      exact congrArg ('$' :: ·) ih
    · rw [escapeDollars_cons dollar, Found.formatFrom, if_neg dollar, ih]

theorem format_cons_escapeDollars (found : Found) {c : Char} (plain : c ≠ '$') (text : List Char) :
    found.format (c :: escapeDollars text) = c :: text := by
  rw [← escapeDollars_cons plain, format_escapeDollars]

/-- Doubling changes no reference, except to a dollar sign. -/
theorem reference_escapeDollars {c : Char} (text : List Char) :
    found.reference (c :: escapeDollars text) = found.reference (c :: text) := by
  cases text with
  | nil => rfl
  | cons d text =>
    by_cases dollar : d = '$'
    · subst dollar
      rfl
    · rw [escapeDollars_cons dollar]
      rfl

/-- How many characters belong to a reference. -/
theorem formatFrom_reference {c : Char} (plain : c ≠ '$') (text : List Char) :
    found.formatFrom (found.reference (c :: text)).2 (c :: escapeDollars text) =
      (c :: text).drop (found.reference (c :: text)).2 := by
  have whole := format_escapeDollars found text
  rw [Found.format] at whole
  have none : found.formatFrom 0 (c :: escapeDollars text) = c :: text := by
    rw [Found.formatFrom, if_neg plain, whole]
  have one : found.formatFrom 1 (c :: escapeDollars text) = text := whole
  simp only [Found.reference, if_neg plain]
  split_ifs with all before behind digit
  · exact one
  · exact one
  · exact one
  · cases text with
    | nil => exact one
    | cons d text =>
      dsimp only
      split_ifs with second
      · have visible : d ≠ '$' := by
          rintro rfl
          exact absurd second (by decide)
        have rest := format_escapeDollars found text
        rw [escapeDollars_cons visible]
        exact rest
      · exact one
  · exact none

/-- A single dollar sign in front: the doubled ones shift by one, and the last belongs to what is behind them. -/
theorem format_dollar_escapeDollars (found : Found) (text : List Char) :
    found.format ('$' :: escapeDollars text) =
      text.takeWhile (· == '$') ++ ((found.reference (text.dropWhile (· == '$'))).1 ++
        (text.dropWhile (· == '$')).drop (found.reference (text.dropWhile (· == '$'))).2) := by
  rw [Found.format]
  induction text with
  | nil => rfl
  | cons c text ih =>
    by_cases dollar : c = '$'
    · subst dollar
      exact congrArg ('$' :: ·) ih
    · have stop : (c == '$') = false := beq_eq_false_iff_ne.mpr dollar
      rw [List.takeWhile_cons, List.dropWhile_cons, stop, escapeDollars_cons dollar, Found.formatFrom, if_pos rfl,
        reference_escapeDollars]
      exact congrArg (_ ++ ·) (formatFrom_reference dollar text)

end Formats

/-! ## Replacing -/

section Replacing

variable (pattern ahead : Regex) (put : Found → List Char)

/-- The preferred match beginning here that the lookahead accepts. -/
def matchAhead (nonempty start : Bool) (subject : List Char) : Option Found :=
  ((run pattern start subject).find? fun hit =>
    (!nonempty || hit.1.length < subject.length) && !(run ahead (start && hit.1.length == subject.length) hit.1).isEmpty).map
      fun hit => { before := [], text := subject.take (subject.length - hit.1.length), rest := hit.1, captures := hit.2 }

/-- The leftmost match from a position on. -/
def searchAheadFrom : Bool → List Char → Option Found
  | start, [] => matchAhead pattern ahead false start []
  | start, c :: rest =>
    match matchAhead pattern ahead false start (c :: rest) with
    | some found => some found
    | none => (searchAheadFrom false rest).map fun found => { found with before := c :: found.before }

/-- `std::regex_search`. -/
def searchAhead (subject : List Char) : Option Found := searchAheadFrom pattern ahead true subject

/-- Replace from here on; `skip` characters still belong to the match put last, `gap` is the text since then. -/
def replaceAheadFrom : ℕ → Bool → List Char → List Char → List Char
  | 0, start, gap, [] =>
    match matchAhead pattern ahead false start [] with
    | some found => put { found with before := gap }
    | none => []
  | _ + 1, _, _, [] => []
  | skip + 1, _, _, _ :: rest => replaceAheadFrom skip false [] rest
  | 0, start, gap, c :: rest =>
    match matchAhead pattern ahead false start (c :: rest) with
    | none => c :: replaceAheadFrom 0 false (gap ++ [c]) rest
    | some found =>
      put { found with before := gap } ++
        if found.text ≠ [] then replaceAheadFrom (found.text.length - 1) false [] rest
        else
          match matchAhead pattern ahead true start (c :: rest) with
          | some longer => put longer ++ replaceAheadFrom (longer.text.length - 1) false [] rest
          | none => c :: replaceAheadFrom 0 false [c] rest

/-- `std::regex_replace`. -/
def replaceAhead (subject : List Char) : List Char := replaceAheadFrom pattern ahead put 0 true [] subject

end Replacing

theorem run_lit_eq (text : List Char) (start : Bool) (subject : List Char) :
    run (lit text) start subject = if text.isPrefixOf subject then [(subject.drop text.length, [])] else [] := by
  induction text generalizing start subject with
  | nil => rfl
  | cons c text ih =>
    cases subject with
    | nil => rfl
    | cons d rest =>
      rw [lit, chr, run, run]
      by_cases same : d = c
      · subst same
        simp only [beq_self_eq_true, ↓reduceIte, List.flatMap_cons, List.flatMap_nil, List.append_nil, ih,
          List.isPrefixOf_cons_cons_self, List.length_cons, List.drop_succ_cons]
        split_ifs <;> rfl
      · rw [if_neg (by simpa using same), List.flatMap_nil, if_neg]
        simp [List.isPrefixOf, Ne.symm same]

/-! ## Whole words -/

section WholeWord

variable (word : Char → Bool)

/-- A pattern at the beginning of the subject or behind a character that belongs to no word. -/
def wholeWord (target : Regex) : Regex := seq (alt bol (sat fun c => !word c)) (group 1 target)

/-- The end of the subject or a character that belongs to no word. -/
def boundary : Regex := alt eol (sat fun c => !word c)

variable {word} {target : List Char}

/-- What is found for a whole word is the target, with one character in front of it at most. -/
theorem searchAhead_wholeWord_front {ahead : Regex} {subject : List Char} {found : Found}
    (reported : searchAhead (wholeWord word (lit target)) ahead subject = some found) :
    ∃ front, front.length ≤ 1 ∧ found.text = front ++ target := by
  have here {start : Bool} {subject : List Char} {found : Found}
      (hit : matchAhead (wholeWord word (lit target)) ahead false start subject = some found) :
      ∃ front, front.length ≤ 1 ∧ found.text = front ++ target := by
    obtain ⟨⟨rest, captures⟩, first, rfl⟩ := Option.map_eq_some_iff.mp hit
    obtain ⟨read, rfl, derivation⟩ := (mem_run ..).mp (List.mem_of_find?_eq_some first)
    obtain ⟨front, behind, _, _, rfl, -, head, tail⟩ := derives_seq.mp derivation
    obtain ⟨_, -, inner⟩ := derives_group.mp tail
    obtain ⟨rfl, -⟩ := derives_lit.mp inner
    refine ⟨front, ?_, by rw [List.length_append, Nat.add_sub_cancel, List.take_left]⟩
    rcases derives_alt.mp head with begin | separator
    · obtain ⟨-, rfl, -⟩ := derives_bol.mp begin
      exact Nat.zero_le 1
    · obtain ⟨c, -, rfl, -⟩ := derives_sat.mp separator
      exact Nat.le_refl 1
  have from_here {start : Bool} (hit : searchAheadFrom (wholeWord word (lit target)) ahead start subject = some found) :
      ∃ front, front.length ≤ 1 ∧ found.text = front ++ target := by
    clear reported
    induction subject generalizing start found with
    | nil => exact here hit
    | cons c subject ih =>
      rw [searchAheadFrom] at hit
      cases attempt : matchAhead (wholeWord word (lit target)) ahead false start (c :: subject) with
      | some first =>
        rw [attempt] at hit
        obtain rfl := Option.some.inj hit
        exact here attempt
      | none =>
        rw [attempt] at hit
        obtain ⟨later, more, rfl⟩ := Option.map_eq_some_iff.mp hit
        obtain ⟨front, short, same⟩ := ih more
        exact ⟨front, short, same⟩
  exact from_here reported

private theorem boundary_ahead (start : Bool) (subject : List Char) :
    (run (boundary word) start subject).isEmpty = false ↔ ∀ c ∈ subject.head?, word c = false := by
  cases subject with
  | nil => simp [boundary, run]
  | cons c rest =>
    cases inside : word c <;> simp [boundary, run, inside]

/-- The target in front of a text, recorded as the first group. -/
private theorem run_target (start : Bool) (subject : List Char) :
    run (group 1 (lit target)) start subject =
      if target <+: subject then [(subject.drop target.length, [(1, target)])] else [] := by
  rw [run, run_lit_eq]
  split_ifs with bool occurs occurs
  · obtain ⟨rest, rfl⟩ := occurs
    simp
  · exact absurd (List.isPrefixOf_iff_prefix.mp bool) occurs
  · exact absurd (List.isPrefixOf_iff_prefix.mpr occurs) bool
  · rfl

/-- The successes of the pattern: at the beginning of the subject, then behind a separator. -/
private theorem run_wholeWord (start : Bool) (c : Char) (rest : List Char) :
    run (wholeWord word (lit target)) start (c :: rest) =
      (if start = true ∧ target <+: c :: rest then [((c :: rest).drop target.length, [(1, target)])] else []) ++
        if word c = false ∧ target <+: rest then [(rest.drop target.length, [(1, target)])] else [] := by
  have hits := @run_target target
  rw [wholeWord, run]
  generalize group 1 (lit target) = pattern at hits
  rw [run, List.flatMap_append]
  congr 1
  · cases start with
    | false => simp [run]
    | true => by_cases occurs : target <+: c :: rest <;> simp [run, hits, occurs]
  · cases inside : word c with
    | false => by_cases occurs : target <+: rest <;> simp [run, hits, inside, occurs]
    | true => simp [run, inside]

/-- A target in front of a text is accepted when it is the first run. -/
private theorem find_target {accepts : List Char × Captures → Bool}
    (accept : ∀ text captures, accepts (text, captures) = true ↔ ∀ d ∈ text.head?, word d = false)
    (guard : Prop) [Decidable guard] (text : List Char) (all : IsRun word target) :
    (if guard ∧ target <+: text then [(text.drop target.length, [(1, target)])] else []).find? accepts =
      if guard ∧ (split word text).1 = target then some (text.drop target.length, [(1, target)]) else none := by
  by_cases here : guard ∧ (split word text).1 = target
  · obtain ⟨occurs, stop⟩ := (split_fst_eq_iff all).mp here.2
    rw [if_pos here, if_pos ⟨here.1, occurs⟩, List.find?_cons_of_pos ((accept ..).mpr stop)]
  · rw [if_neg here]
    split_ifs with occurs
    · have refused : ¬ accepts (text.drop target.length, [(1, target)]) = true := fun accepted =>
        here ⟨occurs.1, (split_fst_eq_iff all).mpr ⟨occurs.2, (accept ..).mp accepted⟩⟩
      rw [List.find?_cons_of_neg refused, List.find?_nil]
    · rfl

/-- What the pattern matches at the first character of a text: the text's first run when it is the target, at
the beginning of the subject, or a separator with the run behind it. -/
theorem matchAhead_wholeWord (all : IsRun word target) (start : Bool) (c : Char) (rest : List Char) :
    matchAhead (wholeWord word (lit target)) (boundary word) false start (c :: rest) =
      if start = true ∧ (split word (c :: rest)).1 = target then
        some { before := [], text := target, rest := (c :: rest).drop target.length, captures := [(1, target)] }
      else if word c = false ∧ (split word rest).1 = target then
        some { before := [], text := c :: target, rest := rest.drop target.length, captures := [(1, target)] }
      else none := by
  rw [matchAhead, run_wholeWord]
  generalize accepted : (fun hit : List Char × Captures => (_ : Bool)) = accepts
  have accept (text : List Char) (captures : Captures) :
      accepts (text, captures) = true ↔ ∀ d ∈ text.head?, word d = false := by
    rw [← accepted]
    exact (Iff.of_eq (Bool.not_eq_true' _)).trans (boundary_ahead ..)
  have first : (if start = true ∧ target <+: c :: rest then [((c :: rest).drop target.length, [(1, target)])] else
    []).find? accepts =
      if start = true ∧ (split word (c :: rest)).1 =
        target then some ((c :: rest).drop target.length, [(1, target)]) else none :=
    find_target accept (start = true) (c :: rest) all
  have second : (if word c = false ∧ target <+: rest then [(rest.drop target.length, [(1, target)])] else []).find? accepts =
      if word c = false ∧ (split word rest).1 = target then some (rest.drop target.length, [(1, target)]) else none :=
    find_target accept (word c = false) rest all
  rw [List.find?_append, first, second]
  by_cases here : start = true ∧ (split word (c :: rest)).1 = target
  · obtain ⟨tail, whole⟩ := ((split_fst_eq_iff all).mp here.2).1
    rw [if_pos here, if_pos here, ← whole]
    simp
  · rw [if_neg here, if_neg here, Option.none_or]
    by_cases behind : word c = false ∧ (split word rest).1 = target
    · obtain ⟨tail, rfl⟩ := ((split_fst_eq_iff all).mp behind.2).1
      have read : (c :: (target ++ tail)).length - tail.length = target.length + 1 := by
        rw [List.length_cons, List.length_append]
        omega
      rw [if_pos behind, if_pos behind, Option.map_some, List.drop_left, read, List.take_succ_cons, List.take_left]
    · rw [if_neg behind, if_neg behind]
      rfl

private theorem matchAhead_wholeWord_nil (nonempty : target ≠ []) (start : Bool) :
    matchAhead (wholeWord word (lit target)) (boundary word) false start [] = none := by
  have absent : ¬ target <+: [] := fun occurs => nonempty (List.prefix_nil.mp occurs)
  have hits := @run_target target
  have fails : run (wholeWord word (lit target)) start [] = [] := by
    rw [wholeWord, run]
    generalize group 1 (lit target) = pattern at hits
    cases start <;> simp [run, hits, absent]
  rw [matchAhead, fails]
  rfl

/-- The beginning of the subject matters only when the target stands there. -/
private theorem matchAhead_wholeWord_start (all : IsRun word target) {c : Char} {rest : List Char}
    (found : (split word (c :: rest)).1 ≠ target) :
    matchAhead (wholeWord word (lit target)) (boundary word) false true (c :: rest) =
      matchAhead (wholeWord word (lit target)) (boundary word) false false (c :: rest) := by
  have first := @matchAhead_wholeWord word target all true c rest
  have later := @matchAhead_wholeWord word target all false c rest
  rw [if_neg fun here => found here.2] at first
  rw [if_neg fun here => Bool.false_ne_true here.1] at later
  rw [first, later]

/-- Put every run that is the target, with the separator in front of it. -/
def putWords (word : Char → Bool) (target : List Char) (out : List Char → List Char) (text : List Char) : List Char :=
  (if (split word text).1 = target then out [] else (split word text).1) ++
    (split word text).2.flatMap fun piece => if piece.2 = target then out [piece.1] else piece.1 :: piece.2

/-- What stands in front of the runs that are the target. -/
def fronts (word : Char → Bool) (target text : List Char) : List (List Char) :=
  (if (split word text).1 = target then [[]] else []) ++
    ((split word text).2.filter fun piece => piece.2 = target).map fun piece => [piece.1]

/-- Everything behind the first occurrence has a separator in front. -/
theorem fronts_cases (word : Char → Bool) (target text : List Char) :
    ∃ first later, fronts word target text = first ++ later ∧ (first = [] ∨ first = [[]]) ∧
      ∀ front ∈ later, ∃ c, word c = false ∧ front = [c] := by
  refine ⟨_, _, rfl, ?_, fun front member => ?_⟩
  · split_ifs
    · exact .inr rfl
    · exact .inl rfl
  · obtain ⟨piece, kept, rfl⟩ := List.mem_map.mp member
    exact ⟨piece.1, separates_of_mem_split (List.mem_filter.mp kept).1, rfl⟩

/-- Changing the runs that are the target, and nothing else. -/
theorem putWords_eq_mapRuns (target replacement text : List Char) :
    putWords word target (fun front => front ++ replacement) text =
      mapRuns word (fun run => if run = target then replacement else run) text := by
  rw [putWords, mapRuns, List.nil_append]
  congr 1
  refine List.flatMap_congr fun piece _ => ?_
  split_ifs <;> rfl

/-- Pieces of equal lengths agree as a whole exactly when each of them does. -/
private theorem flatMap_inj {α : Type} {f g : α → List Char} {pieces : List α}
    (lengths : ∀ piece ∈ pieces, (f piece).length = (g piece).length) :
    pieces.flatMap f = pieces.flatMap g ↔ ∀ piece ∈ pieces, f piece = g piece := by
  induction pieces with
  | nil => simp
  | cons piece pieces ih =>
    obtain ⟨first, later⟩ := List.forall_mem_cons.mp lengths
    rw [List.flatMap_cons, List.flatMap_cons, List.forall_mem_cons, ← ih later]
    constructor
    · intro same
      exact List.append_inj same first
    · rintro ⟨here, rest⟩
      rw [here, rest]

section Pieces

variable {out out' : List Char → List Char} {text : List Char}

theorem forall_fronts {P : List Char → Prop} :
    (∀ front ∈ fronts word target text, P front) ↔
      ((split word text).1 = target → P []) ∧ ∀ piece ∈ (split word text).2, piece.2 = target → P [piece.1] := by
  rw [fronts, List.forall_mem_append, List.forall_mem_map]
  simp only [List.mem_filter, decide_eq_true_eq, and_imp]
  refine and_congr_left fun _ => ?_
  split_ifs with here
  · simp [here]
  · simp [here]

/-- Words of equal lengths are put alike exactly when they are equal. -/
theorem putWords_inj (lengths : ∀ front ∈ fronts word target text, (out front).length = (out' front).length) :
    putWords word target out text = putWords word target out' text ↔
      ∀ front ∈ fronts word target text, out front = out' front := by
  obtain ⟨first, later⟩ := forall_fronts.mp lengths
  rw [putWords, putWords, forall_fronts]
  have head : (if (split word text).1 = target then out [] else (split word text).1).length =
      (if (split word text).1 = target then out' [] else (split word text).1).length := by
    split_ifs with here
    · exact first here
    · rfl
  have pieces : ∀ piece ∈ (split word text).2, (if piece.2 = target then out [piece.1] else piece.1 :: piece.2).length =
      (if piece.2 = target then out' [piece.1] else piece.1 :: piece.2).length := by
    intro piece member
    split_ifs with here
    · exact later piece member here
    · rfl
  have front : (if (split word text).1 = target then out [] else (split word text).1) =
      (if (split word text).1 = target then out' [] else (split word text).1) ↔
        ((split word text).1 = target → out [] = out' []) := by
    split_ifs with here
    · simp [here]
    · simp [here]
  have each (piece : Char × List Char) : (if piece.2 = target then out [piece.1] else piece.1 :: piece.2) =
      (if piece.2 = target then out' [piece.1] else piece.1 :: piece.2) ↔
        (piece.2 = target → out [piece.1] = out' [piece.1]) := by
    split_ifs with here
    · simp [here]
    · simp [here]
  simp only [← front, ← each, ← flatMap_inj pieces]
  constructor
  · exact fun same => List.append_inj same head
  · rintro ⟨here, rest⟩
    rw [here, rest]

/-- An additive measure of two results differs by what was put. -/
theorem measure_putWords {measure : List Char → ℕ}
    (add : ∀ first second, measure (first ++ second) = measure first + measure second) :
    measure (putWords word target out text) + ((fronts word target text).map fun front => measure (out' front)).sum =
      measure (putWords word target out' text) + ((fronts word target text).map fun front => measure (out front)).sum := by
  have pieces (pieces : List (Char × List Char)) :
      measure (pieces.flatMap fun piece => if piece.2 = target then out [piece.1] else piece.1 :: piece.2) +
          (((pieces.filter fun piece => piece.2 = target).map fun piece => [piece.1]).map fun front =>
            measure (out' front)).sum =
        measure (pieces.flatMap fun piece => if piece.2 = target then out' [piece.1] else piece.1 :: piece.2) +
          (((pieces.filter fun piece => piece.2 = target).map fun piece => [piece.1]).map fun front =>
            measure (out front)).sum := by
    induction pieces with
    | nil => rfl
    | cons piece pieces ih =>
      by_cases here : piece.2 = target
      · simp only [List.flatMap_cons, List.filter_cons, here, decide_true, ↓reduceIte, List.map_cons, List.sum_cons,
          add] at ih ⊢
        omega
      · simp only [List.flatMap_cons, List.filter_cons, here, decide_false, Bool.false_eq_true, ↓reduceIte, add] at ih ⊢
        omega
  have behind := pieces (split word text).2
  rw [putWords, putWords, fronts, List.map_append, List.map_append, List.sum_append, List.sum_append, add, add]
  split_ifs
  · simp only [List.map_cons, List.map_nil, List.sum_cons, List.sum_nil]
    omega
  · simp only [List.map_nil, List.sum_nil]
    omega

/-- The lengths of two results differ by what was put. -/
theorem length_putWords :
    (putWords word target out text).length + ((fronts word target text).map fun front => (out' front).length).sum =
      (putWords word target out' text).length + ((fronts word target text).map fun front => (out front).length).sum :=
  measure_putWords fun _ _ => List.length_append

/-- Putting the target back where it was. -/
theorem putWords_target (target text : List Char) : putWords word target (fun front => front ++ target) text = text := by
  have same : (fun run => if run = target then target else run) = fun run : List Char => run := by
    funext run
    split_ifs with here
    · exact here.symm
    · rfl
  rw [putWords_eq_mapRuns, same, mapRuns_id]

/-- A character that is not put goes with every occurrence. -/
theorem count_putWords {c : Char} (away : ∀ front ∈ fronts word target text, c ∉ out front) :
    (putWords word target out text).count c + (fronts word target text).length * target.count c ≤ text.count c := by
  have total := @measure_putWords word target out (fun front => front ++ target) text (List.count c) fun _ _ =>
    List.count_append
  have put : (fronts word target text).map (fun front => (out front).count c) = (fronts word target text).map fun _ => 0 :=
    List.map_congr_left fun front member => List.count_eq_zero.mpr (away front member)
  have taken : ((fronts word target text).map fun _ => target.count c).sum ≤
      ((fronts word target text).map fun front => (front ++ target).count c).sum :=
    List.sum_le_sum fun front _ => by rw [List.count_append]; exact Nat.le_add_left _ _
  rw [putWords_target, put, List.map_const', List.sum_replicate, smul_zero, add_zero] at total
  rw [List.map_const', List.sum_replicate, smul_eq_mul] at taken
  omega

theorem mem_putWords {c : Char} (member : c ∈ putWords word target out text) :
    c ∈ text ∨ ∃ front ∈ fronts word target text, c ∈ out front := by
  by_contra absent
  push Not at absent
  have total := @measure_putWords word target out (fun front => front ++ target) text (List.count c) fun _ _ =>
    List.count_append
  have put : (fronts word target text).map (fun front => (out front).count c) = (fronts word target text).map fun _ => 0 :=
    List.map_congr_left fun front member => List.count_eq_zero.mpr (absent.2 front member)
  rw [putWords_target, put, List.map_const', List.sum_replicate, smul_zero, add_zero,
    List.count_eq_zero.mpr absent.1] at total
  have present := List.count_pos_iff.mpr member
  omega

theorem mem_fronts {front : List Char} (member : front ∈ fronts word target text) {c : Char} (inside : c ∈ front) :
    c ∈ text := by
  have whole := @mapRuns_id word text
  rw [mapRuns] at whole
  rw [fronts] at member
  rcases List.mem_append.mp member with first | later
  · split_ifs at first
    · rw [List.mem_singleton.mp first] at inside
      exact absurd inside List.not_mem_nil
    · exact absurd first List.not_mem_nil
  · obtain ⟨piece, kept, rfl⟩ := List.mem_map.mp later
    obtain rfl := List.mem_singleton.mp inside
    rw [← whole]
    exact List.mem_append_right _ (List.mem_flatMap.mpr ⟨piece, (List.mem_filter.mp kept).1, List.mem_cons_self⟩)

theorem fronts_eq_nil : fronts word target text = [] ↔ target ∉ runs word text := by
  rw [fronts, List.append_eq_nil_iff, List.map_eq_nil_iff, List.filter_eq_nil_iff, runs, List.mem_cons, not_or]
  refine and_congr ?_ ?_
  · split_ifs with here
    · simp [here]
    · simp [Ne.symm here]
  · rw [List.mem_map]
    simp only [decide_eq_true_eq, not_exists, not_and]

/-- A first run that is followed by another one than the target. -/
theorem putWords_run_cons {run rest : List Char} {separator : Char} (all : IsRun word run)
    (separates : word separator = false)
    (other : (split word rest).1 ≠ target) :
    putWords word target out (run ++ separator :: rest) =
      (if run = target then out [] else run) ++ separator :: putWords word target out rest := by
  rw [putWords, split_cons all separates, List.flatMap_cons, if_neg other, putWords, if_neg other]
  rfl

theorem fronts_run_cons {run rest : List Char} {separator : Char} (all : IsRun word run) (separates : word separator = false)
    (other : (split word rest).1 ≠ target) :
    fronts word target (run ++ separator :: rest) = (if run = target then [[]] else []) ++ fronts word target rest := by
  rw [fronts, split_cons all separates, List.filter_cons_of_neg (by simpa using other), fronts, if_neg other,
    List.nil_append]

/-- A character of the target that is in no first run comes into none. -/
theorem split_putWords {c : Char} (inside : c ∈ target) (away : c ∉ (split word text).1)
    (keeps : ∀ front rest, c ∉ (split word rest).1 → c ∉ (split word (out front ++ rest)).1) :
    c ∉ (split word (putWords word target out text)).1 := by
  have other : (split word text).1 ≠ target := by
    rintro rfl
    exact away inside
  have pieces : c ∉ (split word ((split word text).2.flatMap
      fun piece => if piece.2 = target then out [piece.1] else piece.1 :: piece.2)).1 := by
    have separate : ∀ piece ∈ (split word text).2, word piece.1 = false := fun piece member => separates_of_mem_split member
    generalize (split word text).2 = pieces at separate
    induction pieces with
    | nil => exact List.not_mem_nil
    | cons piece pieces ih =>
      have later := ih fun other member => separate other (List.mem_cons_of_mem _ member)
      rw [List.flatMap_cons]
      split_ifs with here
      · exact keeps _ _ later
      · rw [List.cons_append, split_fst_eq_nil (by simpa using separate piece List.mem_cons_self)]
        exact List.not_mem_nil
  rw [putWords, if_neg other, split_run_append (isRun_split word text)]
  exact fun member => (List.mem_append.mp member).elim away pieces

end Pieces

private theorem replaceAheadFrom_skip {pattern ahead : Regex} {put : Found → List Char} {gap read : List Char}
    (nonempty : read ≠ []) (tail : List Char) :
    replaceAheadFrom pattern ahead put read.length false gap (read ++ tail) =
      replaceAheadFrom pattern ahead put 0 false [] tail := by
  induction read generalizing gap with
  | nil => exact absurd rfl nonempty
  | cons c read ih =>
    rw [List.length_cons, List.cons_append, replaceAheadFrom]
    cases read with
    | nil => rfl
    | cons d read => exact ih (List.cons_ne_nil d read)

section Scan

variable {put : Found → List Char} {out : List Char → List Char} (all : IsRun word target) (nonempty : target ≠ [])
  (puts : ∀ front before rest,
    put { before := before, text := front ++ target, rest := rest, captures := [(1, target)] } = out front)
include all nonempty puts

/-- Away from the beginning, the first run stays. -/
private theorem replaceAheadFrom_wholeWord (gap text : List Char) :
    replaceAheadFrom (wholeWord word (lit target)) (boundary word) put 0 false gap text =
      (split word text).1 ++
        (split word text).2.flatMap fun piece => if piece.2 = target then out [piece.1] else piece.1 :: piece.2 := by
  induction length : text.length using Nat.strongRecOn generalizing gap text with
  | ind size ih =>
    cases text with
    | nil =>
      rw [replaceAheadFrom, matchAhead_wholeWord_nil nonempty]
      rfl
    | cons c rest =>
      rw [List.length_cons] at length
      have kept := ih rest.length (by omega) (gap ++ [c]) rest rfl
      rw [replaceAheadFrom, matchAhead_wholeWord all, if_neg (by simp)]
      by_cases inside : word c = true
      · rw [if_neg (by simp [inside]), split, if_pos inside]
        simp only [kept, List.cons_append]
      · have outside : word c = false := by simpa using inside
        rw [split, if_neg inside, List.nil_append, List.flatMap_cons]
        by_cases found : (split word rest).1 = target
        · obtain ⟨⟨tail, rfl⟩, stop⟩ := (split_fst_eq_iff all).mp found
          rw [List.drop_left] at stop
          rw [List.length_append] at length
          have behind := ih tail.length (by omega) [] tail rfl
          rw [split_fst_eq_nil stop, List.nil_append] at behind
          rw [if_pos ⟨outside, found⟩, if_pos found, List.drop_left]
          simp only [ne_eq, List.cons_ne_nil, not_false_eq_true, ↓reduceIte, List.length_cons, Nat.add_sub_cancel]
          rw [replaceAheadFrom_skip nonempty, behind, split_append all stop, ← puts [c] gap tail]
          rfl
        · rw [if_neg (by simp [found]), if_neg found]
          simp only [kept, List.cons_append]

/-- Every run that is the target is put, the first one also without a separator in front. -/
theorem replaceAhead_wholeWord (text : List Char) :
    replaceAhead (wholeWord word (lit target)) (boundary word) put text = putWords word target out text := by
  rw [replaceAhead, putWords]
  by_cases found : (split word text).1 = target
  · obtain ⟨⟨tail, rfl⟩, stop⟩ := (split_fst_eq_iff all).mp found
    rw [List.drop_left] at stop
    obtain ⟨c, rest, rfl⟩ := List.exists_cons_of_ne_nil nonempty
    have behind := replaceAheadFrom_wholeWord all nonempty puts [] tail
    rw [split_fst_eq_nil stop, List.nil_append] at behind
    have here : replaceAheadFrom (wholeWord word (lit (c :: rest))) (boundary word) put rest.length false [] (rest ++ tail) =
        replaceAheadFrom (wholeWord word (lit (c :: rest))) (boundary word) put 0 false [] tail := by
      cases rest with
      | nil => rfl
      | cons d rest => exact replaceAheadFrom_skip (List.cons_ne_nil d rest) tail
    rw [if_pos found, split_append all stop, List.cons_append, replaceAheadFrom, matchAhead_wholeWord all,
      if_pos ⟨rfl, found⟩]
    simp only [ne_eq, List.cons_ne_nil, not_false_eq_true, ↓reduceIte, List.length_cons, Nat.add_sub_cancel]
    rw [here, behind, ← puts [] [] tail, List.drop_succ_cons, List.drop_left]
    rfl
  · rw [if_neg found, ← replaceAheadFrom_wholeWord all nonempty puts [] text]
    cases text with
    | nil => rw [replaceAheadFrom, replaceAheadFrom, matchAhead_wholeWord_nil nonempty, matchAhead_wholeWord_nil nonempty]
    | cons c rest =>
      rw [replaceAheadFrom, replaceAheadFrom, matchAhead_wholeWord_start all found,
        matchAhead_wholeWord all, if_neg (by simp)]
      by_cases behind : word c = false ∧ (split word rest).1 = target
      · rw [if_pos behind]
        rfl
      · rw [if_neg behind]

end Scan

/-- Away from the beginning, the leftmost match is the first run behind a separator that is the target. -/
private theorem searchAheadFrom_wholeWord (all : IsRun word target) (nonempty : target ≠ []) (text : List Char) :
    (searchAheadFrom (wholeWord word (lit target)) (boundary word) false text).map Found.text =
      ((split word text).2.find? fun piece => piece.2 = target).map fun piece => piece.1 :: target := by
  induction text with
  | nil =>
    rw [searchAheadFrom, matchAhead_wholeWord_nil nonempty]
    rfl
  | cons c rest ih =>
    rw [searchAheadFrom, matchAhead_wholeWord all, if_neg (by simp)]
    by_cases inside : word c = true
    · rw [if_neg (by simp [inside]), split, if_pos inside]
      simpa [Option.map_map, Function.comp_def] using ih
    · have outside : word c = false := by simpa using inside
      rw [split, if_neg inside]
      by_cases found : (split word rest).1 = target
      · rw [if_pos ⟨outside, found⟩, List.find?_cons_of_pos (by simpa using found)]
        rfl
      · rw [if_neg (by simp [found]), List.find?_cons_of_neg (by simpa using found)]
        simpa [Option.map_map, Function.comp_def] using ih

/-- The first match is the target with what stands in front of its first occurrence. -/
theorem searchAhead_wholeWord (all : IsRun word target) (nonempty : target ≠ []) (text : List Char) :
    (searchAhead (wholeWord word (lit target)) (boundary word) text).map Found.text =
      (fronts word target text).head?.map (· ++ target) := by
  rw [searchAhead, fronts]
  by_cases found : (split word text).1 = target
  · obtain ⟨⟨tail, rfl⟩, stop⟩ := (split_fst_eq_iff all).mp found
    obtain ⟨c, rest, rfl⟩ := List.exists_cons_of_ne_nil nonempty
    rw [if_pos found, List.cons_append, searchAheadFrom, matchAhead_wholeWord all, if_pos ⟨rfl, found⟩]
    rfl
  · have later : searchAheadFrom (wholeWord word (lit target)) (boundary word) true text =
        searchAheadFrom (wholeWord word (lit target)) (boundary word) false text := by
      cases text with
      | nil => rw [searchAheadFrom, searchAheadFrom, matchAhead_wholeWord_nil nonempty, matchAhead_wholeWord_nil nonempty]
      | cons c rest =>
        rw [searchAheadFrom, searchAheadFrom, matchAhead_wholeWord_start all found]
    rw [if_neg found, later, searchAheadFrom_wholeWord all nonempty, List.nil_append, List.head?_map, List.head?_filter,
      Option.map_map]
    rfl

/-- A target that occurs nowhere is not found. -/
theorem searchAhead_wholeWord_absent {text : List Char} (absent : ¬ target <:+: text) :
    searchAhead (wholeWord word (lit target)) (boundary word) text = none := by
  have nonempty : target ≠ [] := by
    rintro rfl
    exact absent List.nil_infix
  have fails (start : Bool) : searchAheadFrom (wholeWord word (lit target)) (boundary word) start text = none := by
    induction text generalizing start with
    | nil => rw [searchAheadFrom, matchAhead_wholeWord_nil nonempty]
    | cons c rest ih =>
      have here : ¬ target <+: c :: rest := fun occurs => absent occurs.isInfix
      have behind : ¬ target <:+: rest := fun occurs => absent (occurs.trans (List.suffix_cons c rest).isInfix)
      have next : ¬ target <+: rest := fun occurs => behind occurs.isInfix
      have none : matchAhead (wholeWord word (lit target)) (boundary word) false start (c :: rest) = none := by
        rw [matchAhead, run_wholeWord, if_neg fun both => here both.2, if_neg fun both => next both.2]
        rfl
      rw [searchAheadFrom, none, ih behind]
      rfl
  exact fails true

/-! ## Pieces of the result -/

section Changed

variable {f : List Char → List Char} {replacement first text : List Char}

/-- Changing other runs changes nothing in front of the target. -/
theorem fronts_mapRuns (stays : ∀ run, IsRun word run → IsRun word (f run))
    (same : ∀ run ∈ runs word text, f run = target ↔ run = target) :
    fronts word target (mapRuns word f text) = fronts word target text := by
  obtain ⟨head, later⟩ := List.forall_mem_cons.mp same
  have kept : ((split word text).2.map fun piece => (piece.1, f piece.2)).filter (fun piece => piece.2 = target) =
      ((split word text).2.filter fun piece => piece.2 = target).map fun piece => (piece.1, f piece.2) := by
    rw [List.filter_map]
    refine congrArg _ (List.filter_congr fun piece member => ?_)
    exact decide_eq_decide.mpr (later piece.2 (List.mem_map_of_mem member))
  rw [fronts, split_mapRuns stays, kept, List.map_map, fronts]
  simp only [head]
  rfl

/-- Pieces whose separator goes with the target. -/
private theorem length_pieces_joined (run : IsRun word replacement) {front : List Char} (all : IsRun word front)
    {pieces : List (Char × List Char)} (each : ∀ piece ∈ pieces, word piece.1 = false ∧ IsRun word piece.2) :
    (split word (front ++ pieces.flatMap fun piece =>
      if piece.2 = target then replacement else piece.1 :: piece.2)).2.length =
      (pieces.filter fun piece => piece.2 ≠ target).length := by
  induction pieces generalizing front with
  | nil =>
    rw [List.flatMap_nil, List.append_nil, split_run all]
    rfl
  | cons piece pieces ih =>
    obtain ⟨⟨separates, inside⟩, later⟩ := List.forall_mem_cons.mp each
    rw [List.flatMap_cons]
    by_cases here : piece.2 = target
    · rw [if_pos here, ← List.append_assoc, ih (all.append run) later, List.filter_cons_of_neg (by simpa using here)]
    · rw [if_neg here, List.cons_append, split_cons all separates, List.length_cons, ih inside later,
        List.filter_cons_of_pos (by simpa using here), List.length_cons]

/-- One separator is put in front of every target. -/
theorem flatMap_single {pieces : List (Char × List Char)} {c : Char} :
    (pieces.flatMap fun piece => if piece.2 = target then [c] ++ replacement else piece.1 :: piece.2) =
      (pieces.map fun piece => if piece.2 = target then (c, replacement) else piece).flatMap fun piece =>
        piece.1 :: piece.2 := by
  rw [List.flatMap_map]
  refine List.flatMap_congr fun piece member => ?_
  split_ifs
  · rfl
  · rfl

theorem pieces_single (run : IsRun word replacement) {c : Char} (separates : word c = false)
    {pieces : List (Char × List Char)} (each : ∀ piece ∈ pieces, word piece.1 = false ∧ IsRun word piece.2) :
    ∀ piece ∈ pieces.map fun piece => if piece.2 = target then (c, replacement) else piece,
      word piece.1 = false ∧ IsRun word piece.2 := by
  intro piece member
  obtain ⟨piece, known, rfl⟩ := List.mem_map.mp member
  split_ifs
  · exact ⟨separates, run⟩
  · exact each piece known

/-- Putting the same everywhere leaves no more pieces than there were; when it leaves as many, a target behind a separator
has one put in front of it as well, and nothing else changes. -/
theorem pieces_putWords (run : IsRun word replacement) (head : first = [] ∨ ∃ c, word c = false ∧ first = [c])
    (start : first ≠ [] → (split word text).1 ≠ target) :
    (split word (putWords word target (fun _ => first ++ replacement) text)).2.length ≤ (split word text).2.length ∧
      ((split word (putWords word target (fun _ => first ++ replacement) text)).2.length = (split word text).2.length →
        (∀ piece ∈ (split word text).2, piece.2 = target → first ≠ []) ∧
        (split word (putWords word target (fun _ => first ++ replacement) text)).2 =
          (split word text).2.map fun piece => if piece.2 = target then (first.headD piece.1, replacement) else piece) := by
  have each : ∀ piece ∈ (split word text).2, word piece.1 = false ∧ IsRun word piece.2 :=
    fun piece member => ⟨separates_of_mem_split member, isRun_of_mem_split member⟩
  have all := isRun_split word text
  rw [putWords]
  generalize split word text = parts at each all start
  obtain ⟨front, pieces⟩ := parts
  dsimp only at each all start ⊢
  rcases head with rfl | ⟨c, separates, rfl⟩
  · have opening : IsRun word (if front = target then replacement else front) := by
      split_ifs
      · exact run
      · exact all
    have length := @length_pieces_joined word target replacement run _ opening pieces each
    simp only [List.nil_append] at length ⊢
    rw [length]
    refine ⟨List.length_filter_le _ _, fun same => ?_⟩
    have none : ∀ piece ∈ pieces, piece.2 ≠ target := by
      simpa using List.length_filter_eq_length_iff.mp same
    have plain : (pieces.flatMap fun piece => if piece.2 = target then replacement else piece.1 :: piece.2) =
        pieces.flatMap fun piece => piece.1 :: piece.2 :=
      List.flatMap_congr fun piece member => if_neg (none piece member)
    rw [plain, split_flatMap opening each]
    refine ⟨fun piece member here => absurd here (none piece member), ?_⟩
    exact ((List.map_congr_left fun piece member => if_neg (none piece member)).trans (List.map_id' pieces)).symm
  · rw [if_neg (start (List.cons_ne_nil c [])), flatMap_single, split_flatMap all]
    · exact ⟨(List.length_map _).le, fun _ => ⟨fun _ _ _ => List.cons_ne_nil c [], rfl⟩⟩
    · exact pieces_single run separates each

end Changed

end WholeWord

end Regex
