import Sysdarft.Coding.PreProcessor

/-! # The text of a line

What the preprocessor does to every line before it looks at it, character by character.
-/

namespace Sysdarft.Coding

private theorem replaceAll_filter (c : Char) (text : List Char) : Text.replaceAll [c] [] text = text.filter (· != c) := by
  rw [Text.replaceAll_singleton]
  induction text with
  | nil => rfl
  | cons d rest ih =>
    rw [List.flatMap_cons, ih]
    by_cases same : d = c
    · simp [same]
    · simp [same]

/-- The special case of `replace_all` makes no difference. -/
theorem replaceAll_eq (original target replacement : List Char) :
    replaceAll original target replacement = Text.replaceAll target replacement original := by
  rw [replaceAll]
  split_ifs with empty spaces
  · rw [Text.replaceAll, if_pos empty]
  · obtain ⟨rfl, rfl⟩ := spaces
    simp only [replaceAll_filter, List.filter_filter, Bool.and_self]
  · rfl

/-- Every character that is replaced by nothing goes. -/
theorem replaceAll_erase (c : Char) (text : List Char) : replaceAll text [c] [] = text.filter (· != c) := by
  rw [replaceAll_eq, replaceAll_filter]

theorem replaceAll_space (text : List Char) : replaceAll text [' '] [] = removeSpace text := by
  rw [replaceAll_erase, removeSpace]

theorem isLineEmpty_iff (line : List Char) : isLineEmpty line = true ↔ ∀ c ∈ line, c = ' ' := by
  rw [isLineEmpty, replaceAll_space, removeSpace, List.isEmpty_iff, List.filter_eq_nil_iff]
  simp

/-- Four spaces for a tab. -/
def expandTabs (text : List Char) : List Char := text.flatMap fun c => if c = '\t' then "    ".toList else [c]

/-- A character that begins no comment. -/
def isCode (c : Char) : Bool := c != ';' && c != '#'

theorem expandTabs_append (first second : List Char) :
    expandTabs (first ++ second) = expandTabs first ++ expandTabs second :=
  List.flatMap_append ..

theorem expandTabs_of_not_mem {text : List Char} (absent : '\t' ∉ text) : expandTabs text = text := by
  induction text with
  | nil => rfl
  | cons c rest ih =>
    rw [List.mem_cons, not_or] at absent
    rw [expandTabs, List.flatMap_cons, if_neg (Ne.symm absent.1)]
    exact congrArg (c :: ·) (ih absent.2)

theorem mem_expandTabs {c : Char} {text : List Char} :
    c ∈ expandTabs text ↔ c ∈ text ∧ c ≠ '\t' ∨ c = ' ' ∧ '\t' ∈ text := by
  have spaces : ∀ d ∈ "    ".toList, d = ' ' := by decide
  simp only [expandTabs, List.mem_flatMap]
  constructor
  · rintro ⟨d, member, inside⟩
    split_ifs at inside with tab
    · exact .inr ⟨spaces c inside, tab ▸ member⟩
    · obtain rfl := List.mem_singleton.mp inside
      exact .inl ⟨member, tab⟩
  · rintro (⟨member, visible⟩ | ⟨rfl, tab⟩)
    · exact ⟨c, member, by rw [if_neg visible]; exact List.mem_singleton_self c⟩
    · exact ⟨'\t', tab, by decide⟩

theorem removeSpace_expandTabs (text : List Char) :
    removeSpace (expandTabs text) = text.filter fun c => c != ' ' && c != '\t' := by
  induction text with
  | nil => rfl
  | cons c rest ih =>
    rw [removeSpace] at ih
    rw [removeSpace, expandTabs, List.flatMap_cons, List.filter_append, ← expandTabs, ih]
    by_cases tab : c = '\t'
    · subst tab
      have spaces : "    ".toList.filter (· != ' ') = [] := by decide
      rw [if_pos rfl, spaces, List.nil_append, List.filter_cons_of_neg (by decide)]
    · rw [if_neg tab]
      by_cases space : c = ' '
      · subst space
        rfl
      · rw [List.filter_cons_of_pos (by simpa using space), List.filter_cons_of_pos (by simp [space, tab])]
        rfl

/-- A comment goes whether or not the tabs in front of it are spaces already. -/
theorem headText_eq (line : List Char) : headText line = expandTabs (line.takeWhile isCode) := by
  rw [headText, replaceAll_eq, show "\t".toList = ['\t'] from rfl, Text.replaceAll_singleton, truncateAfterSemicolonOrHash]
  change List.takeWhile isCode _ = _
  induction line with
  | nil => rfl
  | cons c rest ih =>
    rw [List.flatMap_cons]
    by_cases tab : c = '\t'
    · subst tab
      have spaces : ∀ d ∈ "    ".toList, isCode d = true := by decide
      rw [if_pos rfl, List.takeWhile_append_of_pos spaces, ih, List.takeWhile_cons_of_pos (by decide), expandTabs,
        expandTabs,
        List.flatMap_cons, if_pos rfl]
    · rw [if_neg tab, List.singleton_append]
      cases code : isCode c with
      | true =>
        rw [List.takeWhile_cons_of_pos code, List.takeWhile_cons_of_pos code, ih, expandTabs, expandTabs, List.flatMap_cons,
          if_neg tab, List.singleton_append]
      | false =>
        rw [List.takeWhile_cons_of_neg (ne_true_of_eq_false code), List.takeWhile_cons_of_neg (ne_true_of_eq_false code)]
        rfl

/-- A beginning without comment is looked at by itself. -/
theorem headText_append {first : List Char} (code : ∀ c ∈ first, isCode c = true) (second : List Char) :
    headText (first ++ second) = expandTabs first ++ headText second := by
  rw [headText_eq, headText_eq, List.takeWhile_append_of_pos code, expandTabs_append]

end Sysdarft.Coding
