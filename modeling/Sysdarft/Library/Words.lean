import Sysdarft.Library.Text

/-! # Words of a text

A text over a class of word characters is a sequence of maximal runs, which may be empty, with one
separator between two of them. `mapRuns` changes the runs and keeps the separators. Replacing a target made
of word characters changes every run by itself.
-/

namespace Words

variable {word : Char → Bool}

/-- The first run, and every separator with the run behind it. -/
def split (word : Char → Bool) : List Char → List Char × List (Char × List Char)
  | [] => ([], [])
  | c :: rest =>
    if word c then (c :: (split word rest).1, (split word rest).2)
    else ([], (c, (split word rest).1) :: (split word rest).2)

/-- All runs. -/
def runs (word : Char → Bool) (text : List Char) : List (List Char) :=
  (split word text).1 :: (split word text).2.map Prod.snd

/-- Change every run. -/
def mapRuns (word : Char → Bool) (f : List Char → List Char) (text : List Char) : List Char :=
  f (split word text).1 ++ (split word text).2.flatMap fun piece => piece.1 :: f piece.2

/-- A run is made of word characters. -/
def IsRun (word : Char → Bool) (run : List Char) : Prop := ∀ c ∈ run, word c = true

instance (run : List Char) : Decidable (IsRun word run) := inferInstanceAs (Decidable (∀ c ∈ run, word c = true))

theorem IsRun.append {first second : List Char} (left : IsRun word first) (right : IsRun word second) :
    IsRun word (first ++ second) := by
  intro c member
  rcases List.mem_append.mp member with early | late
  · exact left c early
  · exact right c late

theorem IsRun.suffix {last run : List Char} (all : IsRun word run) (back : last <:+ run) : IsRun word last :=
  fun c member => all c (back.subset member)

section Pieces

variable {run rest : List Char} {separator : Char}

theorem split_run (all : IsRun word run) : split word run = (run, []) := by
  induction run with
  | nil => rfl
  | cons c run ih =>
    have later := ih fun d member => all d (List.mem_cons_of_mem _ member)
    rw [split, if_pos (all c List.mem_cons_self), later]

theorem split_cons (all : IsRun word run) (separates : word separator = false) (rest : List Char) :
    split word (run ++ separator :: rest) = (run, (separator, (split word rest).1) :: (split word rest).2) := by
  induction run with
  | nil => rw [List.nil_append, split, separates, if_neg Bool.false_ne_true]
  | cons c run ih =>
    have later := ih fun d member => all d (List.mem_cons_of_mem _ member)
    rw [List.cons_append, split, if_pos (all c List.mem_cons_self), later]

/-- The first run is the longest one. -/
theorem split_append (all : IsRun word run) (stop : ∀ c ∈ rest.head?, word c = false) :
    split word (run ++ rest) = (run, (split word rest).2) := by
  cases rest with
  | nil => rw [List.append_nil, split_run all, split]
  | cons separator rest =>
    rw [split_cons all (stop separator rfl), split, if_neg (by rw [stop separator rfl]; exact Bool.false_ne_true)]

/-- A run in front belongs to the first run. -/
theorem split_run_append (all : IsRun word run) (rest : List Char) :
    split word (run ++ rest) = (run ++ (split word rest).1, (split word rest).2) := by
  induction run with
  | nil => rfl
  | cons c run ih =>
    have later := ih fun d member => all d (List.mem_cons_of_mem _ member)
    rw [List.cons_append, split, if_pos (all c List.mem_cons_self), later]
    rfl

/-- A text that begins with a separator has an empty first run. -/
theorem split_fst_eq_nil (stop : ∀ c ∈ rest.head?, word c = false) : (split word rest).1 = [] := by
  have front := @split_append word [] rest (fun c member => absurd member List.not_mem_nil) stop
  rw [List.nil_append] at front
  rw [front]

/-- A text is a run, or a run with a separator and a text behind it. -/
@[elab_as_elim] theorem induct (word : Char → Bool) {P : List Char → Prop} (last : ∀ run, IsRun word run → P run)
    (next : ∀ run separator rest, IsRun word run → word separator = false → P rest → P (run ++ separator :: rest))
    (text : List Char) : P text := by
  have pieces (front : List Char) (all : IsRun word front) : P (front ++ text) := by
    induction text generalizing front with
    | nil => exact last _ (by rwa [List.append_nil])
    | cons c text ih =>
      by_cases inside : word c = true
      · have longer := ih (front ++ [c]) (all.append (by simpa [IsRun] using inside))
        rwa [List.append_assoc] at longer
      · exact next front c text all (by simpa using inside) (ih [] (by simp [IsRun]))
  exact pieces [] (by simp [IsRun])

/-- A text begins with its first run, and what is behind it begins with a separator. -/
theorem exists_split (word : Char → Bool) (text : List Char) :
    ∃ rest, text = (split word text).1 ++ rest ∧ ∀ c ∈ rest.head?, word c = false := by
  induction text using induct word with
  | last run all => exact ⟨[], by rw [split_run all, List.append_nil], by simp⟩
  | next run separator rest all separates _ =>
    exact ⟨separator :: rest, by rw [split_cons all separates], by simpa using separates⟩

theorem isRun_split (word : Char → Bool) (text : List Char) : IsRun word (split word text).1 := by
  induction text using induct word with
  | last run all => rwa [split_run all]
  | next run separator rest all separates _ => rwa [split_cons all separates]

/-- A word is the first run when it is in front and no word character is behind it. -/
theorem split_fst_eq_iff {target text : List Char} (all : IsRun word target) :
    (split word text).1 = target ↔ target <+: text ∧ ∀ c ∈ (text.drop target.length).head?, word c = false := by
  constructor
  · rintro rfl
    obtain ⟨rest, whole, stop⟩ := exists_split word text
    have dropped : ((split word text).1 ++ rest).drop (split word text).1.length = rest := List.drop_left
    rw [← whole] at dropped
    exact ⟨⟨rest, whole.symm⟩, by rwa [dropped]⟩
  · rintro ⟨⟨rest, rfl⟩, stop⟩
    rw [List.drop_left] at stop
    rw [split_append all stop]

theorem separates_of_mem_split {text : List Char} {piece : Char × List Char} (member : piece ∈ (split word text).2) :
    word piece.1 = false := by
  induction text using induct word with
  | last run all =>
    rw [split_run all] at member
    cases member
  | next run separator rest all separates ih =>
    rw [split_cons all separates] at member
    rcases List.mem_cons.mp member with rfl | later
    · exact separates
    · exact ih later

theorem runs_run (all : IsRun word run) : runs word run = [run] := by
  rw [runs, split_run all]
  rfl

theorem runs_cons (all : IsRun word run) (separates : word separator = false) (rest : List Char) :
    runs word (run ++ separator :: rest) = run :: runs word rest := by
  rw [runs, runs, split_cons all separates]
  rfl

theorem isRun_of_mem {text : List Char} (member : run ∈ runs word text) : IsRun word run := by
  induction text using induct word with
  | last last all =>
    rw [runs_run all] at member
    rwa [List.mem_singleton.mp member]
  | next front separator rest all separates ih =>
    rw [runs_cons all separates] at member
    rcases List.mem_cons.mp member with rfl | later
    · exact all
    · exact ih later

variable {f g : List Char → List Char}

theorem mapRuns_run (all : IsRun word run) : mapRuns word f run = f run := by
  rw [mapRuns, split_run all]
  exact List.append_nil _

theorem mapRuns_cons (all : IsRun word run) (separates : word separator = false) (rest : List Char) :
    mapRuns word f (run ++ separator :: rest) = f run ++ separator :: mapRuns word f rest := by
  rw [mapRuns, mapRuns, split_cons all separates]
  rfl

/-- Two changes one after the other. -/
theorem mapRuns_mapRuns (text : List Char) (stays : ∀ run, IsRun word run → IsRun word (f run)) :
    mapRuns word g (mapRuns word f text) = mapRuns word (fun run => g (f run)) text := by
  induction text using induct word with
  | last run all => rw [mapRuns_run all, mapRuns_run all, mapRuns_run (stays run all)]
  | next run separator rest all separates ih =>
    rw [mapRuns_cons all separates, mapRuns_cons all separates, mapRuns_cons (stays run all) separates, ih]

/-- A text splits at its first separator in one way. -/
theorem append_cons_inj {run' rest' : List Char} {separator' : Char} (all : IsRun word run) (all' : IsRun word run')
    (separates : word separator = false) (separates' : word separator' = false)
    (same : run ++ separator :: rest = run' ++ separator' :: rest') :
    run = run' ∧ separator = separator' ∧ rest = rest' := by
  have pieces := congrArg (split word) same
  rw [split_cons all separates, split_cons all' separates'] at pieces
  obtain rfl := (Prod.mk.inj pieces).1
  obtain ⟨rfl, rfl⟩ := List.cons.inj (List.append_cancel_left same)
  exact ⟨rfl, rfl, rfl⟩

/-- Two changes agree on a text exactly when they agree on its runs. -/
theorem mapRuns_inj {text : List Char} (stays : ∀ run, IsRun word run → IsRun word (f run))
    (stays' : ∀ run, IsRun word run → IsRun word (g run)) :
    mapRuns word f text = mapRuns word g text ↔ ∀ run ∈ runs word text, f run = g run := by
  induction text using induct word with
  | last run all =>
    rw [mapRuns_run all, mapRuns_run all, runs_run all]
    simp only [List.mem_singleton, forall_eq]
  | next run separator rest all separates ih =>
    rw [mapRuns_cons all separates, mapRuns_cons all separates, runs_cons all separates, List.forall_mem_cons, ← ih]
    constructor
    · intro same
      obtain ⟨first, -, later⟩ := append_cons_inj (stays run all) (stays' run all) separates separates same
      exact ⟨first, later⟩
    · rintro ⟨first, later⟩
      rw [first, later]

theorem mapRuns_congr {text : List Char} (agree : ∀ run ∈ runs word text, f run = g run) :
    mapRuns word f text = mapRuns word g text := by
  induction text using induct word with
  | last run all =>
    rw [runs_run all] at agree
    rw [mapRuns_run all, mapRuns_run all, agree run List.mem_cons_self]
  | next run separator rest all separates ih =>
    rw [runs_cons all separates] at agree
    rw [mapRuns_cons all separates, mapRuns_cons all separates, agree run List.mem_cons_self,
      ih fun other member => agree other (List.mem_cons_of_mem _ member)]

theorem mapRuns_id (text : List Char) : mapRuns word (fun run => run) text = text := by
  induction text using induct word with
  | last run all => exact mapRuns_run all
  | next run separator rest all separates ih => rw [mapRuns_cons all separates, ih]

theorem count_mapRuns_le {c : Char} (le : ∀ run, (f run).count c ≤ (g run).count c) (text : List Char) :
    (mapRuns word f text).count c ≤ (mapRuns word g text).count c := by
  induction text using induct word with
  | last run all =>
    rw [mapRuns_run all, mapRuns_run all]
    exact le run
  | next run separator rest all separates ih =>
    rw [mapRuns_cons all separates, mapRuns_cons all separates, List.count_append, List.count_append, List.count_cons,
      List.count_cons]
    exact Nat.add_le_add (le run) (Nat.add_le_add_right ih _)

/-- A change that leaves less of a character in some run leaves less of it. -/
theorem count_mapRuns_lt {c : Char} (le : ∀ run, (f run).count c ≤ (g run).count c) {text : List Char}
    (less : ∃ run ∈ runs word text, (f run).count c < (g run).count c) :
    (mapRuns word f text).count c < (mapRuns word g text).count c := by
  obtain ⟨bad, member, less⟩ := less
  induction text using induct word with
  | last run all =>
    rw [runs_run all, List.mem_singleton] at member
    rwa [mapRuns_run all, mapRuns_run all, ← member]
  | next run separator rest all separates ih =>
    rw [runs_cons all separates] at member
    rw [mapRuns_cons all separates, mapRuns_cons all separates, List.count_append, List.count_append, List.count_cons,
      List.count_cons]
    rcases List.mem_cons.mp member with rfl | later
    · exact Nat.add_lt_add_of_lt_of_le less (Nat.add_le_add_right (count_mapRuns_le le rest) _)
    · exact Nat.add_lt_add_of_le_of_lt (le run) (Nat.add_lt_add_right (ih later) _)

/-- The pieces of a text whose runs are changed. -/
theorem split_mapRuns {text : List Char} (stays : ∀ run, IsRun word run → IsRun word (f run)) :
    split word (mapRuns word f text) =
    (f (split word text).1, (split word text).2.map fun piece => (piece.1, f piece.2)) := by
  induction text using induct word with
  | last run all => rw [mapRuns_run all, split_run (stays run all), split_run all, List.map_nil]
  | next run separator rest all separates ih =>
    rw [mapRuns_cons all separates, split_cons (stays run all) separates, ih, split_cons all separates, List.map_cons]

/-- The runs of a text whose runs are changed. -/
theorem runs_mapRuns {text : List Char} (stays : ∀ run, IsRun word run → IsRun word (f run)) :
    runs word (mapRuns word f text) = (runs word text).map f := by
  rw [runs, split_mapRuns stays, runs, List.map_cons, List.map_map, List.map_map]
  rfl

theorem isRun_of_mem_split {text : List Char} {piece : Char × List Char} (member : piece ∈ (split word text).2) :
    IsRun word piece.2 :=
  isRun_of_mem (List.mem_cons_of_mem _ (List.mem_map_of_mem member))

/-- A run and pieces put together are taken apart again. -/
theorem split_flatMap {run : List Char} {pieces : List (Char × List Char)} (all : IsRun word run)
    (each : ∀ piece ∈ pieces, word piece.1 = false ∧ IsRun word piece.2) :
    split word (run ++ pieces.flatMap fun piece => piece.1 :: piece.2) = (run, pieces) := by
  induction pieces generalizing run with
  | nil => rw [List.flatMap_nil, List.append_nil, split_run all]
  | cons piece pieces ih =>
    obtain ⟨⟨separates, inside⟩, later⟩ := List.forall_mem_cons.mp each
    rw [List.flatMap_cons, List.cons_append, split_cons all separates, ih inside later]

end Pieces

/-! ## Replacing inside runs -/

variable {target replacement : List Char}

private theorem isPrefixOf_append_cons {text rest : List Char} {separator : Char} (absent : separator ∉ target) :
    target.isPrefixOf (text ++ separator :: rest) = target.isPrefixOf text := by
  rw [Bool.eq_iff_iff, List.isPrefixOf_iff_prefix, List.isPrefixOf_iff_prefix]
  constructor
  · intro occurs
    rcases List.prefix_or_prefix_of_prefix occurs (List.prefix_append text (separator :: rest)) with inside | ⟨longer, rfl⟩
    · exact inside
    · have beyond : longer <+: separator :: rest := (List.prefix_append_right_inj text).mp occurs
      cases longer with
      | nil => rw [List.append_nil]
      | cons c longer =>
        obtain rfl := (List.cons_prefix_cons.mp beyond).1
        exact absurd (List.mem_append_right _ List.mem_cons_self) absent
  · exact fun occurs => occurs.trans (List.prefix_append ..)

/-- No occurrence reaches over a character that the target does not have. -/
theorem replaceFrom_append_cons {separator : Char} (nonempty : target ≠ []) (absent : separator ∉ target) (skip : ℕ)
    (text rest : List Char) (bound : skip ≤ text.length) :
    Text.replaceFrom target replacement skip (text ++ separator :: rest) =
      Text.replaceFrom target replacement skip text ++ separator :: Text.replaceFrom target replacement 0 rest := by
  induction text generalizing skip with
  | nil =>
    obtain rfl : skip = 0 := Nat.le_zero.mp bound
    have differs : ¬ target <+: separator :: rest := by
      intro occurs
      obtain ⟨c, longer, rfl⟩ := List.exists_cons_of_ne_nil nonempty
      exact absent ((List.cons_prefix_cons.mp occurs).1 ▸ List.mem_cons_self)
    rw [List.nil_append, Text.replaceFrom_keep differs, Text.replaceFrom, List.nil_append]
  | cons c text ih =>
    cases skip with
    | succ skip =>
      rw [List.cons_append, Text.replaceFrom, Text.replaceFrom]
      exact ih skip (by simpa using bound)
    | zero =>
      have occurs := @isPrefixOf_append_cons target (c :: text) rest _ absent
      rw [List.cons_append] at occurs
      rw [List.cons_append, Text.replaceFrom, Text.replaceFrom, occurs]
      split_ifs with here
      · have shorter := (List.isPrefixOf_iff_prefix.mp here).length_le
        rw [List.length_cons] at shorter
        rw [ih _ (by omega), List.append_assoc]
      · rw [ih 0 (Nat.zero_le _), List.cons_append]

/-- A target of word characters is replaced in every run by itself. -/
theorem replaceAll_eq_mapRuns (all : IsRun word target) (text : List Char) :
    Text.replaceAll target replacement text = mapRuns word (Text.replaceAll target replacement) text := by
  by_cases empty : target = []
  · have same : Text.replaceAll target replacement = fun run => run := by
      funext run
      rw [Text.replaceAll, if_pos empty]
    rw [same, mapRuns_id]
  · have cut (text : List Char) : Text.replaceAll target replacement text = Text.replaceFrom target replacement 0 text := by
      rw [Text.replaceAll, if_neg empty]
    induction text using induct word with
    | last run run_all => exact (mapRuns_run run_all).symm
    | next run separator rest run_all separates ih =>
      have absent : separator ∉ target := by
        intro member
        rw [all separator member] at separates
        cases separates
      rw [mapRuns_cons run_all separates, ← ih, cut, cut, cut,
        replaceFrom_append_cons empty absent 0 run rest (Nat.zero_le _)]

end Words
