import Mathlib.Tactic

/-! # Replacing occurrences in a text

The left-to-right, non-overlapping replacement obtained by repeating `std::string::find` and
`std::string::replace` and resuming after each replacement.
-/

namespace Text

-- Statements about the characters of a text are decided along the text, not through all characters.
instance (priority := high) decidableForall {P : Char → Prop} [DecidablePred P] (text : List Char) :
    Decidable (∀ c ∈ text, P c) :=
  List.decidableBAll P text

instance (priority := high) decidableForallEnd {P : Char → Prop} [DecidablePred P] (last : Option Char) :
    Decidable (∀ c ∈ last, P c) :=
  Option.decidableForallMem last

/-- Replace from here on; `skip` characters still belong to the occurrence replaced last. -/
def replaceFrom (target replacement : List Char) : ℕ → List Char → List Char
  | _, [] => []
  | skip + 1, _ :: rest => replaceFrom target replacement skip rest
  | 0, c :: rest =>
    if target.isPrefixOf (c :: rest) then
      replacement ++ replaceFrom target replacement (target.length - 1) rest
    else c :: replaceFrom target replacement 0 rest

/-- Replace every occurrence; an empty target leaves the text alone. -/
def replaceAll (target replacement text : List Char) : List Char :=
  if target = [] then text else replaceFrom target replacement 0 text

variable {target replacement : List Char}

theorem replaceFrom_drop (skip : ℕ) (word text : List Char) (length : word.length = skip) :
    replaceFrom target replacement skip (word ++ text) = replaceFrom target replacement 0 text := by
  induction word generalizing skip with
  | nil =>
    obtain rfl : skip = 0 := by simpa using length.symm
    rfl
  | cons c word ih =>
    obtain rfl : skip = word.length + 1 := by simpa using length.symm
    rw [List.cons_append, replaceFrom]
    exact ih word.length rfl

/-- An occurrence at the front is replaced and the scan resumes after it. -/
theorem replaceFrom_occurrence (nonempty : target ≠ []) (text : List Char) :
    replaceFrom target replacement 0 (target ++ text) =
      replacement ++ replaceFrom target replacement 0 text := by
  obtain ⟨c, rest, rfl⟩ := List.exists_cons_of_ne_nil nonempty
  have occurs : (c :: rest).isPrefixOf (c :: (rest ++ text)) = true :=
    List.isPrefixOf_iff_prefix.mpr ⟨text, rfl⟩
  rw [List.cons_append, replaceFrom, if_pos occurs, List.length_cons, Nat.add_sub_cancel,
    replaceFrom_drop _ rest text rfl]

theorem replaceAll_occurrence (target replacement : List Char) (nonempty : target ≠ []) (text : List Char) :
    replaceAll target replacement (target ++ text) = replacement ++ replaceAll target replacement text := by
  rw [replaceAll, replaceAll, if_neg nonempty, if_neg nonempty, replaceFrom_occurrence nonempty]

theorem replaceAll_self (nonempty : target ≠ []) : replaceAll target replacement target = replacement := by
  have whole := replaceAll_occurrence target replacement nonempty []
  have rest : replaceAll target replacement [] = [] := by rw [replaceAll, if_neg nonempty, replaceFrom]
  rwa [rest, List.append_nil, List.append_nil] at whole

/-- A character that does not begin an occurrence is kept. -/
theorem replaceFrom_keep {c : Char} {text : List Char} (absent : ¬ target <+: c :: text) :
    replaceFrom target replacement 0 (c :: text) = c :: replaceFrom target replacement 0 text := by
  rw [replaceFrom, if_neg (fun occurs => absent (List.isPrefixOf_iff_prefix.mp occurs))]

/-- A single character is replaced wherever it stands. -/
theorem replaceAll_singleton (c : Char) (replacement text : List Char) :
    replaceAll [c] replacement text = text.flatMap fun d => if d = c then replacement else [d] := by
  rw [replaceAll, if_neg (List.cons_ne_nil c [])]
  induction text with
  | nil => rfl
  | cons d text ih =>
    by_cases same : d = c
    · subst same
      rw [List.flatMap_cons, if_pos rfl, ← ih]
      exact replaceFrom_occurrence (List.cons_ne_nil d []) text
    · have absent : ¬ [c] <+: d :: text := fun occurs => same (List.cons_prefix_cons.mp occurs).1.symm
      rw [List.flatMap_cons, if_neg same, ← ih, replaceFrom_keep absent, List.singleton_append]

/-- A text without the target is unchanged. -/
theorem replaceAll_of_not_infix {text : List Char} (absent : ¬ target <:+: text) :
    replaceAll target replacement text = text := by
  rw [replaceAll]
  split_ifs with empty
  · rfl
  · induction text with
    | nil => rfl
    | cons c text ih =>
      rw [replaceFrom_keep (fun occurs => absent occurs.isInfix)]
      exact congrArg (c :: ·) (ih (fun occurs => absent (occurs.trans (List.suffix_cons c text).isInfix)))

/-- What does not have the first character of the target is kept. -/
theorem replaceAll_append {first : Char} {tail front : List Char} (absent : first ∉ front) (text : List Char) :
    replaceAll (first :: tail) replacement (front ++ text) = front ++ replaceAll (first :: tail) replacement text := by
  rw [replaceAll, replaceAll, if_neg (List.cons_ne_nil first tail), if_neg (List.cons_ne_nil first tail)]
  induction front with
  | nil => rfl
  | cons c front ih =>
    rw [List.mem_cons, not_or] at absent
    rw [List.cons_append, replaceFrom_keep fun occurs => absent.1 (List.cons_prefix_cons.mp occurs).1, ih absent.2,
      List.cons_append]

theorem count_replaceFrom_le {c : Char} (away : c ∉ replacement) (skip : ℕ) (text : List Char) :
    (replaceFrom target replacement skip text).count c ≤ text.count c := by
  induction text generalizing skip with
  | nil =>
    cases skip
    all_goals exact Nat.le_refl _
  | cons d text ih =>
    have longer : text.count c ≤ (d :: text).count c := List.count_le_count_cons
    cases skip with
    | succ skip =>
      rw [replaceFrom]
      exact (ih skip).trans longer
    | zero =>
      rw [replaceFrom]
      split_ifs
      · rw [List.count_append, List.count_eq_zero.mpr away, Nat.zero_add]
        exact (ih _).trans longer
      · rw [List.count_cons, List.count_cons]
        exact Nat.add_le_add_right (ih 0) _

/-- A character that is in no replacement becomes no more frequent. -/
theorem count_replaceAll_le {c : Char} (away : c ∉ replacement) (text : List Char) :
    (replaceAll target replacement text).count c ≤ text.count c := by
  rw [replaceAll]
  split_ifs
  · exact Nat.le_refl _
  · exact count_replaceFrom_le away 0 text

/-- A character of the target that is not put again becomes less frequent. -/
theorem count_replaceAll_lt {c : Char} {text : List Char} (away : c ∉ replacement) (member : c ∈ target)
    (occurs : target <:+: text) : (replaceAll target replacement text).count c < text.count c := by
  have nonempty := List.ne_nil_of_mem member
  rw [replaceAll, if_neg nonempty]
  induction text with
  | nil => exact absurd (List.infix_nil.mp occurs) nonempty
  | cons d text ih =>
    by_cases here : target <+: d :: text
    · obtain ⟨back, whole⟩ := here
      rw [← whole, replaceFrom_occurrence nonempty, List.count_append, List.count_append, List.count_eq_zero.mpr away]
      exact Nat.add_lt_add_of_lt_of_le (List.count_pos_iff.mpr member) (count_replaceFrom_le away 0 back)
    · rw [replaceFrom_keep here, List.count_cons, List.count_cons]
      exact Nat.add_lt_add_right (ih ((List.infix_cons_iff.mp occurs).resolve_left here)) _

theorem mem_replaceAll {c : Char} {text : List Char} (member : c ∈ replaceAll target replacement text) :
    c ∈ text ∨ c ∈ replacement := by
  by_cases put : c ∈ replacement
  · exact .inr put
  · exact .inl (List.count_pos_iff.mp ((List.count_pos_iff.mpr member).trans_le (count_replaceAll_le put text)))

theorem length_replaceFrom_le (skip : ℕ) (text : List Char) : (replaceFrom target [] skip text).length ≤ text.length := by
  induction text generalizing skip with
  | nil =>
    cases skip
    all_goals exact Nat.le_refl _
  | cons c text ih =>
    cases skip with
    | succ skip => exact (ih skip).trans (Nat.le_succ _)
    | zero =>
      rw [replaceFrom]
      split_ifs
      · exact (ih _).trans (Nat.le_succ _)
      · exact Nat.succ_le_succ (ih 0)

/-- Taking an occurrence out makes the text shorter by the occurrence. -/
theorem length_replaceAll_le {text : List Char} (occurs : target <:+: text) :
    (replaceAll target [] text).length + target.length ≤ text.length := by
  rw [replaceAll]
  split_ifs with empty
  · rw [empty, List.length_nil, Nat.add_zero]
  · induction text with
    | nil => exact absurd (List.infix_nil.mp occurs) empty
    | cons c text ih =>
      by_cases here : target <+: c :: text
      · obtain ⟨rest, whole⟩ := here
        rw [← whole, replaceFrom_occurrence empty, List.nil_append, List.length_append, Nat.add_comm]
        exact Nat.add_le_add_left (length_replaceFrom_le 0 rest) _
      · rw [replaceFrom_keep here]
        rcases List.infix_cons_iff.mp occurs with front | behind
        · exact absurd front here
        · have shorter := ih behind
          rw [List.length_cons, List.length_cons]
          omega

/-- The first separator splits a text in one way. -/
theorem append_cons_inj {α : Type*} {separator : α} {first second first' second' : List α} (absent : separator ∉ first)
    (absent' : separator ∉ first') (same : first ++ separator :: second = first' ++ separator :: second') :
    first = first' ∧ second = second' := by
  induction first generalizing first' with
  | nil =>
    cases first' with
    | nil => exact ⟨rfl, (List.cons.inj same).2⟩
    | cons c rest => exact absurd ((List.cons.inj same).1 ▸ List.mem_cons_self) absent'
  | cons c rest ih =>
    cases first' with
    | nil => exact absurd ((List.cons.inj same).1 ▸ List.mem_cons_self) absent
    | cons d rest' =>
      obtain ⟨rfl, tails⟩ := List.cons.inj same
      obtain ⟨rfl, rfl⟩ := ih (fun member => absent (List.mem_cons_of_mem _ member))
        (fun member => absent' (List.mem_cons_of_mem _ member)) tails
      exact ⟨rfl, rfl⟩

/-- A character that is last in a text and nowhere else in it has nothing behind it. -/
theorem append_last {last : Char} {body first tail : List Char} (absent : last ∉ body)
    (same : body ++ [last] = first ++ last :: tail) : tail = [] := by
  rcases List.eq_nil_or_concat tail with rfl | ⟨front, d, rfl⟩
  · rfl
  · rw [List.concat_eq_append, ← List.cons_append, ← List.append_assoc] at same
    obtain ⟨rfl, -⟩ := List.append_inj' same rfl
    exact absurd (List.mem_append_right _ List.mem_cons_self) absent

end Text
