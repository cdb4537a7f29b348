import Sysdarft.Proofs.LineFormat
import Sysdarft.Proofs.PassedLines
import Sysdarft.Proofs.SubLabelText

/-! # What a `.string` line emits

The text of a `.string` line is stripped of comments and searched for sub-labels like any other text. Unless one of
them is in it, the assembler undoes the escapes and emits the text between the first and the last quotation mark.
-/

namespace Sysdarft.Coding

open Words Regex

/-! ## The line -/

/-- The characters of a text: printable ones, tabs, carriage returns and line feeds. -/
def IsText (c : Char) : Prop := c = '\n' ∨ c = '\t' ∨ c = '\r' ∨ 32 ≤ c.toNat ∧ c.toNat < 127

def escapeChar (c : Char) : List Char :=
  if c = '\n' then ['\\', 'n']
  else if c = '\t' then ['\\', 't']
  else if c = '\r' then ['\\', 'r']
  else if c = '\\' ∨ c = '\'' ∨ c = '"' then ['\\', c]
  else [c]

/-- The text with `\n`, `\t`, `\r`, `\\`, `\'` and `\"` for the characters they stand for. -/
def escapeString (text : List Char) : List Char := text.flatMap escapeChar

/-- What stands behind the bracket of a `.string` line. -/
def quotedText (text : List Char) : List Char := ' ' :: '"' :: (escapeString text ++ "\" >".toList)

/-- `.string < "text" >`, with the text escaped. -/
def stringLine (text : List Char) : List Char := ".string".toList ++ ' ' :: '<' :: quotedText text

def textBytes (text : List Char) : List Byte := text.map fun c => BitVec.ofNat 8 c.toNat

/-- The line emits a chunk with the bytes of a text. -/
def EmitsText (bc : Calculator) (origin : ℕ) (assembly : Assembly) (entry : ℕ × List Char) (text : List Char) : Prop :=
  ∃ after, assembleLine bc origin assembly entry = .ok after ∧
    after.instruction_buffer_set = assembly.instruction_buffer_set ++ [textBytes text]

section Escapes

variable {text : List Char}

theorem escapeString_cons (c : Char) (text : List Char) : escapeString (c :: text) = escapeChar c ++ escapeString text :=
  List.flatMap_cons ..

/-- An escape, or a character that needs none. -/
theorem escapeChar_cases (c : Char) :
    (escapeChar c = [c] ∧ c ≠ '\n' ∧ c ≠ '\t' ∧ c ≠ '\r' ∧ c ≠ '\\' ∧ c ≠ '\'' ∧ c ≠ '"') ∨
      ∃ sign, escapeChar c = ['\\', sign] ∧
        (c = '\n' ∧ sign = 'n' ∨ c = '\t' ∧ sign = 't' ∨ c = '\r' ∧ sign = 'r' ∨
        (c = '\\' ∨ c = '\'' ∨ c = '"') ∧ sign = c) := by
  rw [escapeChar]
  split_ifs with feed tab carriage special
  · exact .inr ⟨'n', rfl, .inl ⟨feed, rfl⟩⟩
  · exact .inr ⟨'t', rfl, .inr (.inl ⟨tab, rfl⟩)⟩
  · exact .inr ⟨'r', rfl, .inr (.inr (.inl ⟨carriage, rfl⟩))⟩
  · exact .inr ⟨c, rfl, .inr (.inr (.inr ⟨special, rfl⟩))⟩
  · simp only [not_or] at special
    exact .inl ⟨rfl, feed, tab, carriage, special⟩

theorem unescapeString_cons {c : Char} (plain : c ≠ '\\') (rest : List Char) :
    unescapeString (c :: rest) = c :: unescapeString rest := by
  rw [unescapeString]
  intro next later same _
  exact plain same

theorem unescapeString_append {front : List Char} (plain : '\\' ∉ front) (rest : List Char) :
    unescapeString (front ++ rest) = front ++ unescapeString rest := by
  induction front with
  | nil => rfl
  | cons c front ih =>
    rw [List.mem_cons, not_or] at plain
    rw [List.cons_append, unescapeString_cons (Ne.symm plain.1), ih plain.2, List.cons_append]

/-- Unescaping adds line feeds, tabs and carriage returns only. -/
theorem mem_unescapeString {c : Char} {text : List Char} (member : c ∈ unescapeString text) :
    c ∈ text ∨ c = '\n' ∨ c = '\t' ∨ c = '\r' := by
  induction text using unescapeString.induct with
  | case1 next rest ih =>
    rw [unescapeString] at member
    rcases List.mem_append.mp member with here | later
    · split_ifs at here with feed tab carriage special
      · exact .inr (.inl (List.mem_singleton.mp here))
      · exact .inr (.inr (.inl (List.mem_singleton.mp here)))
      · exact .inr (.inr (.inr (List.mem_singleton.mp here)))
      · rw [List.mem_singleton.mp here]
        exact .inl (List.mem_cons_of_mem _ List.mem_cons_self)
      · simp only [List.mem_cons, List.not_mem_nil, or_false] at here
        rcases here with rfl | rfl
        · exact .inl List.mem_cons_self
        · exact .inl (List.mem_cons_of_mem _ List.mem_cons_self)
    · exact (ih later).imp_left fun inside => List.mem_cons_of_mem _ (List.mem_cons_of_mem _ inside)
  | case2 d rest other ih =>
    rw [unescapeString.eq_2 d rest other] at member
    rcases List.mem_cons.mp member with rfl | later
    · exact .inl List.mem_cons_self
    · exact (ih later).imp_left (List.mem_cons_of_mem _)
  | case3 =>
    rw [unescapeString] at member
    exact absurd member List.not_mem_nil

/-- It adds no dots. -/
theorem count_unescapeString (text : List Char) : (unescapeString text).count '.' ≤ text.count '.' := by
  induction text using unescapeString.induct with
  | case1 next rest ih =>
    rw [unescapeString, List.count_append, List.count_cons, List.count_cons]
    have here : (if next = 'n' then ['\n'] else if next = 't' then ['\t'] else if next = 'r' then ['\r']
        else if next = '\\' ∨ next = '\'' ∨ next = '"' then [next] else ['\\', next]).count '.' ≤
        if (next == '.') = true then 1 else 0 := by
      split_ifs with feed tab carriage special
      all_goals simp [List.count_cons, *]
    omega
  | case2 d rest other ih =>
    rw [unescapeString.eq_2 d rest other, List.count_cons, List.count_cons]
    omega
  | case3 => exact Nat.le_refl _

/-- Escapes are undone, whatever follows. -/
theorem unescapeString_escapeString (text rest : List Char) :
    unescapeString (escapeString text ++ rest) = text ++ unescapeString rest := by
  induction text with
  | nil => rfl
  | cons c text ih =>
    rw [escapeString_cons, List.append_assoc, List.cons_append, ← ih]
    rcases escapeChar_cases c with ⟨plain, -, -, -, slash, -, -⟩ | ⟨sign, escaped, kind⟩
    · rw [plain, List.singleton_append]
      exact unescapeString_cons slash _
    · rw [escaped]
      rcases kind with ⟨rfl, rfl⟩ | ⟨rfl, rfl⟩ | ⟨rfl, rfl⟩ | ⟨special, rfl⟩
      · rfl
      · rfl
      · rfl
      · rcases special with rfl | rfl | rfl
        all_goals rfl

theorem mem_escapeString {c : Char} (member : c ∈ escapeString text) :
    c ≠ '\n' ∧ c ≠ '\t' ∧ c ≠ '\r' ∧ (c ∈ text ∨ c = '\\' ∨ c = 'n' ∨ c = 't' ∨ c = 'r') := by
  obtain ⟨d, inside, member⟩ := List.mem_flatMap.mp member
  rcases escapeChar_cases d with ⟨plain, feed, tab, carriage, -⟩ | ⟨sign, escaped, kind⟩
  · rw [plain, List.mem_singleton] at member
    subst member
    exact ⟨feed, tab, carriage, .inl inside⟩
  · rw [escaped] at member
    simp only [List.mem_cons, List.not_mem_nil, or_false] at member
    rcases member with rfl | rfl
    · exact ⟨by decide, by decide, by decide, .inr (.inl rfl)⟩
    · rcases kind with ⟨-, rfl⟩ | ⟨-, rfl⟩ | ⟨-, rfl⟩ | ⟨special, rfl⟩
      · exact ⟨by decide, by decide, by decide, .inr (.inr (.inl rfl))⟩
      · exact ⟨by decide, by decide, by decide, .inr (.inr (.inr (.inl rfl)))⟩
      · exact ⟨by decide, by decide, by decide, .inr (.inr (.inr (.inr rfl)))⟩
      · refine ⟨?_, ?_, ?_, .inl inside⟩
        all_goals
          rintro rfl
          exact absurd special (by decide)

theorem singleLine_escapeString (text : List Char) : SingleLine (escapeString text) := by
  intro c member
  obtain ⟨feed, -, carriage, -⟩ := mem_escapeString member
  simp [feed, carriage]

/-- A quotation mark of an escaped text stands behind a backslash. -/
theorem backslash_of_quote {front back : List Char} (whole : escapeString text = front ++ '"' :: back) :
    ∃ before, front = before ++ ['\\'] := by
  induction text generalizing front with
  | nil => exact absurd (congrArg List.length whole) (by simp [escapeString])
  | cons c text ih =>
    rw [escapeString_cons] at whole
    rcases escapeChar_cases c with ⟨plain, -, -, -, -, -, quote⟩ | ⟨sign, escaped, -⟩
    · rw [plain, List.singleton_append] at whole
      cases front with
      | nil => exact absurd (List.cons.inj whole).1 quote
      | cons d front =>
        obtain ⟨before, rfl⟩ := ih (List.cons.inj whole).2
        exact ⟨d :: before, rfl⟩
    · rw [escaped, List.cons_append, List.singleton_append] at whole
      cases front with
      | nil => exact absurd (List.cons.inj whole).1 (by decide)
      | cons d front =>
        obtain ⟨rfl, later⟩ := List.cons.inj whole
        cases front with
        | nil => exact ⟨[], rfl⟩
        | cons e front =>
          obtain ⟨before, rfl⟩ := ih (List.cons.inj later).2
          exact ⟨'\\' :: e :: before, rfl⟩

/-- Behind a bracket and spaces, there are no two quotation marks in an escaped text with its closing mark. -/
theorem not_quoted_of_escapeString {front white tail : List Char} (blank : ∀ c ∈ white, Numerals.isSpace c = true)
    (more : '"' ∈ tail) :
    escapeString text ++ '"' :: " >".toList ≠ front ++ '<' :: (white ++ '"' :: tail) := by
  intro whole
  rw [← List.cons_append, ← List.append_assoc] at whole
  rcases List.append_eq_append_iff.mp whole with ⟨between, -, behind⟩ | ⟨between, escaped, behind⟩
  · have marks := congrArg (List.count '"') behind
    have positive := List.count_pos_iff.mpr more
    rw [List.count_append, List.count_cons_self, List.count_cons_self] at marks
    have none : " >".toList.count '"' = 0 := rfl
    omega
  · cases between with
    | nil =>
      have inside : '"' ∈ " >".toList := (List.cons.inj behind).2 ▸ more
      exact absurd inside (by decide)
    | cons c between =>
      obtain rfl := (List.cons.inj behind).1
      obtain ⟨before, same⟩ := backslash_of_quote escaped
      have last := congrArg List.getLast? same
      rw [List.getLast?_append_cons, List.getLast?_concat] at last
      rcases List.mem_cons.mp (List.mem_of_getLast? last) with bracket | space
      · cases bracket
      · exact absurd (blank _ space) (by decide)

theorem count_escapeString (text : List Char) : (escapeString text).count '.' = text.count '.' := by
  induction text with
  | nil => rfl
  | cons c text ih =>
    rw [escapeString_cons, List.count_append, ih, List.count_cons]
    rcases escapeChar_cases c with ⟨plain, -⟩ | ⟨sign, escaped, kind⟩
    · rw [plain, List.count_singleton]
      omega
    · rw [escaped]
      rcases kind with ⟨rfl, rfl⟩ | ⟨rfl, rfl⟩ | ⟨rfl, rfl⟩ | ⟨rfl | rfl | rfl, rfl⟩
      all_goals
        rw [Nat.add_comm]
        rfl

end Escapes

/-! ## The quotation marks -/

theorem betweenQuotes_quoted {front text back : List Char} (first : '"' ∉ front) (last : '"' ∉ back) :
    betweenQuotes (front ++ '"' :: (text ++ '"' :: back)) = some text := by
  have skip (run : List Char) (plain : '"' ∉ run) (rest : List Char) :
      ((run ++ '"' :: rest).dropWhile (· != '"')).drop 1 = rest := by
    rw [List.dropWhile_append_of_pos fun c member => bne_iff_ne.mpr (ne_of_mem_of_not_mem member plain)]
    rfl
  rw [betweenQuotes, skip front first, if_pos (List.contains_iff_mem.mpr (List.mem_append_right _ List.mem_cons_self)),
    List.reverse_append,
    List.reverse_cons, List.append_assoc, List.singleton_append,
      skip back.reverse (fun member => last (List.mem_reverse.mp member)),
    List.reverse_reverse]

/-- Where the text between the quotation marks is. -/
theorem betweenQuotes_shape {input text : List Char} (found : betweenQuotes input = some text) :
    ∃ front back, '"' ∉ front ∧ '"' ∉ back ∧ input = front ++ '"' :: (text ++ '"' :: back) := by
  have cut (text : List Char) (member : '"' ∈ text) : ∃ front rest, '"' ∉ front ∧ text = front ++ '"' :: rest := by
    obtain ⟨front, rest, rfl, away⟩ := List.eq_append_cons_of_mem member
    exact ⟨front, rest, away, rfl⟩
  by_cases member : '"' ∈ input
  · obtain ⟨front, rest, away, rfl⟩ := cut input member
    by_cases more : '"' ∈ rest
    · obtain ⟨back, inner, away', same⟩ := cut rest.reverse (List.mem_reverse.mpr more)
      have whole : rest = inner.reverse ++ '"' :: back.reverse := by
        rw [← List.reverse_reverse rest, same, List.reverse_append, List.reverse_cons, List.append_assoc,
          List.singleton_append]
      have last : '"' ∉ back.reverse := fun inside => away' (List.mem_reverse.mp inside)
      rw [whole, betweenQuotes_quoted away last] at found
      obtain rfl := Option.some.inj found
      exact ⟨front, back.reverse, away, last, by rw [whole]⟩
    · rw [betweenQuotes, List.dropWhile_append_of_pos fun c inside =>
        bne_iff_ne.mpr (ne_of_mem_of_not_mem inside away)] at found
      rw [List.dropWhile_cons_of_neg (by decide), List.drop_one, List.tail_cons, if_neg (by simpa using more)] at found
      cases found
  · rw [betweenQuotes, List.dropWhile_eq_nil_iff.mpr fun c inside =>
      bne_iff_ne.mpr (ne_of_mem_of_not_mem inside member)] at found
    cases found

/-! ## A line that is left alone -/

/-- What the pattern for strings reads. -/
theorem derives_stringPattern {start : Bool} {word rest : List Char} {captures : Captures} :
    Derives stringPattern start word rest captures ↔
      ∃ front directive gap white text gap' back, word = front ++
      (directive ++ (gap ++ '<' :: (white ++ '"' :: (text ++ '"' :: (gap' ++ '>' :: back))))) ∧
        (∀ c ∈ front, Numerals.isSpace c = true) ∧ directive.map Char.toLower = ".string".toList ∧
        (gap ≠ [] ∧ ∀ c ∈ gap, Numerals.isSpace c = true) ∧ (∀ c ∈ white, Numerals.isSpace c = true) ∧ SingleLine text ∧
        (∀ c ∈ gap', Numerals.isSpace c = true) ∧ (∀ c ∈ back, Numerals.isSpace c = true) ∧ captures = [(1, text)] := by
  have spaces {start : Bool} {word rest : List Char} {captures : Captures} :
      Derives (star space) start word rest captures ↔ (∀ c ∈ word, Numerals.isSpace c = true) ∧ captures = [] := reads_spaces
  simp only [stringPattern, reads_spaces.derives_seq, Reads.derives_seq (@reads_litNoCase ".string".toList),
    reads_gap.derives_seq,
    derives_chr_seq, reads_dots.derives_group_seq, spaces]
  constructor
  · rintro ⟨front, _, rfl, spaces, directive, _, rfl, named, gap, _, rfl, gapped, _, rfl, white, _, rfl, blank, _,
      rfl, text, _, _, rfl,
      single, rfl, _, rfl, gap', _, rfl, gapped', back, rfl, blank', rfl⟩
    exact ⟨front, directive, gap, white, text, gap', back, rfl, spaces, named, gapped, blank, single, gapped', blank', rfl⟩
  · rintro ⟨front, directive, gap, white, text, gap', back, rfl, spaces, named, gapped, blank, single, gapped', blank', rfl⟩
    exact ⟨front, _, rfl, spaces, directive, _, rfl, named, gap, _, rfl, gapped, _, rfl, white, _, rfl, blank, _, rfl,
      text, _, _, rfl,
      single, rfl, _, rfl, gap', _, rfl, gapped', back, rfl, blank', rfl⟩

theorem stringLine_eq (text : List Char) :
    stringLine text = ".string < ".toList ++ '"' :: (escapeString text ++ '"' :: " >".toList) := rfl

theorem search_stringPattern (text : List Char) : (search stringPattern (stringLine text)).isSome = true := by
  refine search_isSome (derives_stringPattern.mpr
    ⟨[], ".string".toList, [' '], [' '], escapeString text, [' '], [], rfl, ?_, rfl,
      ⟨?_, ?_⟩, ?_, singleLine_escapeString text, ?_, ?_, rfl⟩)
  all_goals decide

theorem processString_stringLine (text : List Char) : processString (stringLine text) = .ok (some (textBytes text)) := by
  obtain ⟨found, search⟩ := Option.isSome_iff_exists.mp (search_stringPattern text)
  have unescaped : unescapeString (stringLine text) = ".string < ".toList ++ '"' :: (text ++ '"' :: " >".toList) := by
    rw [stringLine_eq, unescapeString_append (by decide), unescapeString_cons (by decide), unescapeString_escapeString]
    rfl
  rw [processString, search]
  dsimp only
  rw [unescaped, betweenQuotes_quoted (by decide) (by decide)]
  rfl

/-- A line with an opening bracket is no label. -/
theorem not_label_of_bracket {line : List Char} (bracket : '<' ∈ line) : lineMatches lineMarkPattern line = false := by
  rw [← Bool.not_eq_true]
  intro marked
  exact absurd ((labelOf_shape marked).1 '<' bracket) (by decide)

theorem not_isLineEmpty_of_bracket {line : List Char} (bracket : '<' ∈ line) : isLineEmpty line = false := by
  rw [← Bool.not_eq_true, isLineEmpty_iff]
  intro blank
  exact absurd (blank '<' bracket) (by decide)

/-- Such a line is assembled as code. -/
theorem assembleLine_bracket {bc : Calculator} {origin number : ℕ} {assembly after : Assembly} {line : List Char}
    (bracket : '<' ∈ line) :
    assembleLine bc origin assembly (number, line) = .ok after ↔ assembleCode bc origin assembly line = .ok after := by
  have unmarked : fullMatch lineMarkPattern line = none := by
    have plain := not_label_of_bracket bracket
    rwa [lineMatches, Option.isSome_eq_false_iff, Option.isNone_iff_eq_none] at plain
  rw [assembleLine, not_isLineEmpty_of_bracket bracket, if_neg Bool.false_ne_true, unmarked]
  exact Effects.except_mapError_eq_ok

theorem emitsText_stringLine (bc : Calculator) (origin number : ℕ) (assembly : Assembly) (text : List Char) :
    EmitsText bc origin assembly (number, stringLine text) text := by
  refine ⟨assembly.emit (textBytes text), (assembleLine_bracket ?_).mpr ?_, rfl⟩
  · exact List.mem_append_right _ (List.mem_cons_of_mem _ List.mem_cons_self)
  · rw [assembleCode, processString_stringLine]
    rfl

/-! ## Instructions by their first word -/

/-- The characters of a mnemonic, for the pattern that finds it. -/
def isMnemonicChar (c : Char) : Bool := decide ('A' ≤ c ∧ c ≤ 'Z') || c == '-' || Numerals.isDecimal c

/-- The first word of a capitalized text. -/
def firstWord (text : List Char) : List Char :=
  ((capitalization text).dropWhile fun c => !isMnemonicChar c).takeWhile isMnemonicChar

section FirstWord

variable {bc : Calculator} {front rest : List Char}

/-- What is behind a space does not matter for the first word. -/
theorem search_instructionPattern_front (present : firstWord front ≠ []) (rest : List Char) :
    (search instructionPattern (capitalization (front ++ ' ' :: rest))).map Found.text = some (firstWord front) := by
  have away : ∀ c ∈ (capitalization front).takeWhile fun c => !isMnemonicChar c, isMnemonicChar c = false := by
    intro c member
    simpa using List.mem_takeWhile_imp member
  have all : ∀ c ∈ firstWord front, isMnemonicChar c = true := fun c member => List.mem_takeWhile_imp member
  have stop : ∀ c ∈ (((capitalization front).dropWhile fun c => !isMnemonicChar c).dropWhile isMnemonicChar ++
      capitalization (' ' :: rest)).head?, isMnemonicChar c = false := by
    intro c head
    cases behind : ((capitalization front).dropWhile fun c => !isMnemonicChar c).dropWhile isMnemonicChar with
    | nil =>
      rw [behind] at head
      obtain rfl := Option.some.inj head
      decide
    | cons d tail =>
      have first := List.head?_dropWhile_not isMnemonicChar ((capitalization front).dropWhile fun c => !isMnemonicChar c)
      rw [behind] at first head
      obtain rfl := Option.some.inj head
      exact first
  have whole : capitalization (front ++ ' ' :: rest) = ((capitalization front).takeWhile fun c => !isMnemonicChar c) ++
      (firstWord front ++ (((capitalization front).dropWhile fun c => !isMnemonicChar c).dropWhile isMnemonicChar ++
        capitalization (' ' :: rest))) := by
    rw [← List.append_assoc (firstWord front), firstWord, List.takeWhile_append_dropWhile, ← List.append_assoc,
      List.takeWhile_append_dropWhile, capitalization, List.map_append]
    rfl
  rw [whole]
  exact search_plus away present all stop

/-- A letter of a mnemonic makes a first word. -/
theorem firstWord_ne_nil {c : Char} (member : c ∈ capitalization front) (inside : isMnemonicChar c = true) :
    firstWord front ≠ [] := by
  cases behind : (capitalization front).dropWhile fun c => !isMnemonicChar c with
  | nil =>
    have none := List.dropWhile_eq_nil_iff.mp behind c member
    rw [inside] at none
    cases none
  | cons d tail =>
    have first := List.head?_dropWhile_not (fun c => !isMnemonicChar c) (capitalization front)
    rw [behind] at first
    rw [firstWord, behind, List.takeWhile_cons_of_pos (by simpa using first)]
    exact List.cons_ne_nil _ _

/-- The name of a sub-label `.string` has one. -/
theorem firstWord_scopedName (upper : List Char) : firstWord (scopedName upper ".string".toList) ≠ [] := by
  have inside : 'S' ∈ capitalization (scopedName upper ".string".toList) := by
    refine List.mem_map.mpr ⟨'s', ?_, rfl⟩
    rw [scopedName_eq]
    exact List.mem_append_right _ (by decide)
  exact firstWord_ne_nil inside (by decide)

theorem removeSpace_firstWord (front : List Char) : removeSpace (firstWord front) = firstWord front := by
  rw [removeSpace, List.filter_eq_self]
  intro c member
  rw [bne_iff_ne]
  rintro rfl
  exact absurd (List.mem_takeWhile_imp member) (by decide)

theorem cleanLine_front (present : firstWord front ≠ []) (rest : List Char) :
    ∃ tail, cleanLine (front ++ ' ' :: rest) = .ok (firstWord front :: tail) := by
  obtain ⟨found, search, text⟩ := Option.map_eq_some_iff.mp (search_instructionPattern_front present rest)
  simp only [cleanLine, search, text, removeSpace_firstWord]
  exact ⟨_, rfl⟩

/-- The first byte of an operand is no character of a text. -/
theorem encodeTarget_head {input : List Char} {parsed : ParsedTarget} {bytes : List Byte}
    (encoded : encodeTarget bc input = .ok (parsed, bytes)) :
    ∃ code ∈ [REGISTER_CODE, CONSTANT_CODE, MEMORY_CODE], code ∈ bytes := by
  obtain ⟨target, -, encoded⟩ := Effects.except_bind_eq_ok.mp encoded
  cases target with
  | register name =>
    obtain ⟨code, made, same⟩ := Effects.except_bind_eq_ok.mp encoded
    obtain ⟨-, rfl⟩ := Prod.mk.inj (Except.ok.inj same)
    refine ⟨REGISTER_CODE, by decide, ?_⟩
    rw [encodeRegister] at made
    split at made
    · obtain rfl := Except.ok.inj made
      exact List.mem_cons_self
    · split at made
      · obtain rfl := Except.ok.inj made
        exact List.mem_cons_self
      · cases made
  | constant width expression =>
    obtain ⟨code, made, same⟩ := Effects.except_bind_eq_ok.mp encoded
    obtain ⟨-, rfl⟩ := Prod.mk.inj (Except.ok.inj same)
    refine ⟨CONSTANT_CODE, by decide, ?_⟩
    rw [encodeConstant] at made
    split_ifs at made
    · cases made
    · obtain ⟨result, -, made⟩ := Effects.except_bind_eq_ok.mp made
      split at made
      · cases made
      · split at made
        · cases made
        · obtain rfl := Except.ok.inj made
          exact List.mem_cons_self
  | memory ratio width base offset1 offset2 =>
    obtain ⟨code, made, same⟩ := Effects.except_bind_eq_ok.mp encoded
    obtain ⟨-, rfl⟩ := Prod.mk.inj (Except.ok.inj same)
    refine ⟨MEMORY_CODE, by decide, ?_⟩
    obtain ⟨_, -, made⟩ := Effects.except_bind_eq_ok.mp made
    obtain ⟨_, -, made⟩ := Effects.except_bind_eq_ok.mp made
    obtain ⟨_, -, made⟩ := Effects.except_bind_eq_ok.mp made
    obtain ⟨_, -, made⟩ := Effects.except_bind_eq_ok.mp made
    obtain rfl := Except.ok.inj made
    exact List.mem_cons_self
  | notAValidType => cases encoded

/-- An instruction is its opcode alone, or has an operand. -/
theorem encodeInstruction_front (present : firstWord front ≠ []) {bytes : List Byte}
    (encoded : encodeInstruction bc (front ++ ' ' :: rest) = .ok bytes) :
    ∃ mnemonic, findName (firstWord front) = some mnemonic ∧
      (mnemonic.argumentCount = 0 ∧ bytes = [mnemonic.opcode] ∨
        ∃ code ∈ [REGISTER_CODE, CONSTANT_CODE, MEMORY_CODE], code ∈ bytes) := by
  obtain ⟨pieces, mnemonic, width, tokens, operands, cleaned, found, widthed, listed, -, rfl⟩ :=
    encodeInstruction_ok_iff.mp encoded
  obtain ⟨tail, same⟩ := cleanLine_front present rest
  rw [same] at cleaned
  obtain rfl := Except.ok.inj cleaned
  refine ⟨mnemonic, found, ?_⟩
  obtain ⟨counted, each⟩ := encodeOperands_ok_iff.mp listed
  by_cases zero : mnemonic.argumentCount = 0
  · rw [zero, List.take_zero] at each
    obtain rfl := List.forall₂_nil_left_iff.mp each
    have none := takeWidth_isSome widthed
    rw [requiresWidth_counted zero] at none
    obtain rfl := Option.isNone_iff_eq_none.mp (Option.isSome_eq_false_iff.mp none)
    exact .inl ⟨zero, rfl⟩
  · have length := counted zero
    have lengths := each.length_eq
    rw [List.length_take, length, min_self] at lengths
    obtain ⟨operand, others, rfl⟩ := List.exists_cons_of_ne_nil
      (List.ne_nil_of_length_pos (by omega : 0 < operands.length))
    obtain ⟨token, _, first, -, -⟩ := List.forall₂_cons_right_iff.mp each
    obtain ⟨target, -⟩ := encodeOperand_ok_iff.mp first
    obtain ⟨code, known, inside⟩ := encodeTarget_head target
    refine .inr ⟨code, known, ?_⟩
    rw [instructionBytes, List.map_cons, List.flatten_cons]
    exact List.mem_cons_of_mem _ (List.mem_append_right _ (List.mem_append_left _ inside))

/-- An instruction without operands does not look at what is behind its first word. -/
theorem encodeInstruction_bare {mnemonic : Mnemonic} (found : findName (firstWord front) = some mnemonic)
    (zero : mnemonic.argumentCount = 0) (rest : List Char) :
    encodeInstruction bc (front ++ ' ' :: rest) = .ok [mnemonic.opcode] := by
  have present : firstWord front ≠ [] := by
    intro none
    rw [none] at found
    cases found
  obtain ⟨tail, cleaned⟩ := cleanLine_front present rest
  refine encodeInstruction_ok_iff.mpr ⟨_, mnemonic, none, tail, [], cleaned, found, ?_, ?_, ?_, rfl⟩
  · rw [takeWidth.eq_def, requiresWidth_counted zero, if_neg Bool.false_ne_true]
    rfl
  · rw [encodeOperands, if_pos zero]
  · cases mnemonic
    all_goals first | rfl | cases zero

end FirstWord

/-! ## What a line of code emits -/

theorem eq_of_toLower {c d : Char} (small : d.toNat < 65) (same : c.toLower = d) : c = d := by
  delta Char.toLower at same
  split_ifs at same with upper
  · have low : 65 ≤ c.toNat := upper.1
    have high : c.toNat ≤ 90 := upper.2
    have value : d.toNat = c.toNat + 32 := by
      rw [← same]
      change (c.val.toNat + 32) % 2 ^ 32 = c.val.toNat + 32
      have bound : c.val.toNat ≤ 90 := high
      omega
    omega
  · exact same

/-- A directive that begins with a dot, in either case. -/
theorem dot_of_directive {name : List Char} {body : Regex} {start : Bool} {word rest : List Char} {captures : Captures}
    (derivation : Derives (seq (star space) (seq (litNoCase ('.' :: name)) body)) start word rest captures) :
    '.' ∈ word := by
  obtain ⟨front, behind, rfl, -, derivation⟩ := reads_spaces.derives_seq.mp derivation
  obtain ⟨directive, tail, rfl, named, -⟩ := (Reads.derives_seq (@reads_litNoCase ('.' :: name))).mp derivation
  cases directive with
  | nil => cases named
  | cons c directive =>
    obtain rfl : c = '.' := eq_of_toLower (by decide) (List.cons.inj named).1
    exact List.mem_append_right _ List.mem_cons_self

theorem dot_of_dataPattern {start : Bool} {word rest : List Char} {captures : Captures}
    (derivation : Derives dataPattern start word rest captures) : '.' ∈ word := by
  obtain ⟨front, behind, rfl, -, derivation⟩ := reads_spaces.derives_seq.mp derivation
  obtain ⟨tail, rfl, -⟩ := derives_chr_seq.mp derivation
  exact List.mem_append_right _ List.mem_cons_self

/-- A found match is in the text. -/
theorem mem_of_search {pattern : Regex} {subject : List Char} {found : Found} {c : Char}
    (marked : ∀ {start word rest captures}, Derives pattern start word rest captures → c ∈ word)
    (hit : search pattern subject = some found) : c ∈ subject := by
  obtain ⟨split, derivation⟩ := searchFrom_derives hit
  rw [split]
  exact List.mem_append_left _ (List.mem_append_right _ (marked derivation))

theorem search_none {pattern : Regex} {subject : List Char} {c : Char}
    (marked : ∀ {start word rest captures}, Derives pattern start word rest captures → c ∈ word) (absent : c ∉ subject) :
    search pattern subject = none :=
  Option.eq_none_iff_forall_not_mem.mpr fun _ hit => absent (mem_of_search marked hit)

section Emitted

variable {bc : Calculator} {origin : ℕ} {assembly after : Assembly} {front rest : List Char}

/-- What is replaced behind a front that does not have the first character of the target. -/
theorem replaceAll_behind {first : Char} {tail replacement : List Char} (absent : first ∉ front) (visible : first ≠ ' ')
    (dotless : '.' ∉ replacement) (rest : List Char) :
    ∃ rest', replaceAll (front ++ ' ' :: rest) (first :: tail) replacement = front ++ ' ' :: rest' ∧
      ('.' ∈ front ++ ' ' :: rest' → '.' ∈ front ++ ' ' :: rest) := by
  have away : first ∉ front ++ [' '] := by
    rw [List.mem_append, List.mem_singleton, not_or]
    exact ⟨absent, visible⟩
  have same := @Text.replaceAll_append replacement first tail _ away rest
  refine ⟨Text.replaceAll (first :: tail) replacement rest, ?_, fun member => ?_⟩
  · rw [replaceAll_eq, List.append_cons, same, List.append_assoc]
    rfl
  · rcases List.mem_append.mp member with early | late
    · exact List.mem_append_left _ early
    · refine List.mem_append_right _ ?_
      rcases List.mem_cons.mp late with space | late
      · cases space
      · exact List.mem_cons_of_mem _ ((Text.mem_replaceAll late).resolve_right dotless)

theorem dot_not_mem_decimal (n : ℕ) : '.' ∉ Numerals.decimal n :=
  fun member => absurd (Numerals.isDecimal_of_mem_decimal member) (by decide)

theorem dot_not_mem_asciiNumeral (c : Char) : '.' ∉ asciiNumeral c := by
  rw [asciiNumeral]
  split_ifs
  · exact dot_not_mem_decimal _
  · rw [List.mem_cons, not_or]
    exact ⟨by decide, dot_not_mem_decimal _⟩

/-- The values of characters are put behind such a front, too. -/
theorem processAsciiValue_front {line : List Char} (absent : '\'' ∉ front)
    (done : processAsciiValue (front ++ ' ' :: rest) = .ok line) :
    ∃ rest', line = front ++ ' ' :: rest' ∧ ('.' ∈ line → '.' ∈ front ++ ' ' :: rest) := by
  obtain ⟨replacements, read, same⟩ := Effects.except_bind_eq_ok.mp done
  obtain rfl := Except.ok.inj same
  have shapes : ∀ rep ∈ replacements, (∃ tail, rep.1 = '\'' :: tail) ∧ '.' ∉ rep.2 := by
    intro rep member
    obtain ⟨found, hit, made⟩ := Effects.except_mapM_output read member
    obtain ⟨_, derivation⟩ := derives_of_mem_iterate hit
    obtain ⟨tail, text, -⟩ := derives_chr_seq.mp derivation
    split at made
    · obtain rfl := Except.ok.inj made
      exact ⟨⟨tail, text⟩, dot_not_mem_asciiNumeral _⟩
    · cases made
  clear read same done
  induction replacements generalizing rest with
  | nil => exact ⟨rest, rfl, id⟩
  | cons rep replacements ih =>
    obtain ⟨⟨⟨tail, text⟩, dotless⟩, later⟩ := List.forall_mem_cons.mp shapes
    obtain ⟨rest', first, dots⟩ := @replaceAll_behind front '\'' tail rep.2 absent (by decide) dotless rest
    rw [List.foldl_cons, text, first]
    obtain ⟨rest'', whole, dots'⟩ := ih later
    exact ⟨rest'', whole, fun member => dots (dots' member)⟩

/-- An operand that names a label begins with a bracket. -/
theorem markerInLine_bracket {markers : List LineMarker} {line name operand : List Char}
    (named : markerInLine markers line = some (name, operand)) : ∃ tail, operand = '<' :: tail := by
  obtain ⟨marker, -, hit⟩ := List.exists_of_findSome?_eq_some named
  obtain ⟨found, searched, same⟩ := Option.map_eq_some_iff.mp hit
  obtain ⟨-, derivation⟩ := searchFrom_derives searched
  obtain ⟨_, behind, later, -, -, captures, derivation⟩ := reads_dots.derives_group_seq.mp derivation
  obtain ⟨text, last, before, after, -, rfl, inner, final⟩ := derives_seq.mp derivation
  obtain ⟨inside, rfl, bracketed⟩ := derives_group.mp inner
  obtain ⟨none, rfl, dots⟩ := derives_group.mp final
  obtain ⟨tail, rfl, -⟩ := derives_chr_seq.mp bracketed
  obtain ⟨-, rfl⟩ := reads_dots.mp dots
  refine ⟨tail, ?_⟩
  rw [← (Prod.mk.inj same).2, captures, Captures.get]
  simp

/-- What a line that is no `.string` line emits: zeros, which needs a dot on the line, or an instruction, whose first
word is that of the line. -/
theorem assembleCode_cases (plain : '@' ∉ front ∧ '\'' ∉ front ∧ '<' ∉ front)
    (other : processString (front ++ ' ' :: rest) = .ok none)
    (done : assembleCode bc origin assembly (front ++ ' ' :: rest) = .ok after) :
    ∃ code, after.instruction_buffer_set = assembly.instruction_buffer_set ++ [code] ∧
      ((∃ count, code = List.replicate count 0) ∧ '.' ∈ front ++ ' ' :: rest ∨
        ∃ rest', encodeInstruction bc (front ++ ' ' :: rest') = .ok code) := by
  obtain ⟨rest₁, first, dots₁⟩ :=
    @replaceAll_behind front '@' ['@'] (Numerals.decimal origin) plain.1 (by decide) (dot_not_mem_decimal _) rest
  obtain ⟨rest₂, second, dots₂⟩ := @replaceAll_behind front '@' []
    (Numerals.decimal ((codeSizeNow assembly.instruction_buffer_set + origin) % 2 ^ 64)) plain.1 (by decide)
      (dot_not_mem_decimal _) rest₁
  rw [assembleCode, other, Effects.except_ok_bind] at done
  dsimp only at done
  rw [show "@@".toList = ['@', '@'] from rfl, first, show "@".toList = ['@'] from rfl, second] at done
  obtain ⟨reserved, resvb, done⟩ := Effects.except_bind_eq_ok.mp done
  cases reserved with
  | some code =>
    obtain rfl := Except.ok.inj done
    rw [processResvb] at resvb
    split at resvb
    · cases resvb
    · rename_i found searched
      obtain ⟨_, -, resvb⟩ := Effects.except_bind_eq_ok.mp resvb
      obtain rfl := Option.some.inj (Except.ok.inj resvb)
      exact ⟨_, rfl, .inl ⟨⟨_, rfl⟩, dots₁ (dots₂ (mem_of_search dot_of_directive searched))⟩⟩
  | none =>
    obtain ⟨line, ascii, done⟩ := Effects.except_bind_eq_ok.mp done
    obtain ⟨rest₃, rfl, dots₃⟩ := processAsciiValue_front plain.2.1 ascii
    cases data : processData (front ++ ' ' :: rest₃) with
    | some found =>
      rw [data] at done
      obtain rfl := Except.ok.inj done
      obtain ⟨hit, searched, -⟩ := Option.map_eq_some_iff.mp data
      exact ⟨_, rfl, .inl ⟨⟨_, rfl⟩, dots₁ (dots₂ (dots₃ (mem_of_search dot_of_dataPattern searched)))⟩⟩
    | none =>
      rw [data] at done
      cases named : markerInLine assembly.appeared_line_markers (front ++ ' ' :: rest₃) with
      | some found =>
        rw [named] at done
        obtain ⟨code, encoded, done⟩ := Effects.except_bind_eq_ok.mp done
        obtain rfl := Except.ok.inj done
        obtain ⟨tail, operand⟩ := markerInLine_bracket named
        obtain ⟨rest₄, replaced, -⟩ := @replaceAll_behind front '<' tail placeholder plain.2.2 (by decide) (by decide) rest₃
        rw [operand, replaced] at encoded
        exact ⟨code, rfl, .inr ⟨rest₄, Effects.except_mapError_eq_ok.mp encoded⟩⟩
      | none =>
        rw [named] at done
        obtain ⟨code, encoded, done⟩ := Effects.except_bind_eq_ok.mp done
        obtain rfl := Except.ok.inj done
        exact ⟨code, rfl, .inr ⟨rest₃, Effects.except_mapError_eq_ok.mp encoded⟩⟩

end Emitted

/-! ## The line on its way -/

/-- What is left of the quoted text when the comment is gone. -/
def shownText (text : List Char) : List Char := (quotedText text).takeWhile isCode

/-- A `.string` line without its comment. -/
def shownLine (text : List Char) : List Char := ".string".toList ++ ' ' :: '<' :: shownText text

theorem mem_quotedText {text : List Char} {c : Char} (member : c ∈ quotedText text) :
    c ≠ '\n' ∧ c ≠ '\t' ∧ c ≠ '\r' ∧ (c ∈ text ∨ c = '\\' ∨ c = 'n' ∨ c = 't' ∨ c = 'r' ∨ c = ' ' ∨ c = '"' ∨ c = '>') := by
  simp only [quotedText, show "\" >".toList = ['"', ' ', '>'] from rfl, List.mem_cons, List.mem_append,
    List.not_mem_nil, or_false] at member
  rcases member with rfl | rfl | inside | rfl | rfl | rfl
  case inr.inr.inl =>
    obtain ⟨feed, tab, carriage, kind⟩ := mem_escapeString inside
    exact ⟨feed, tab, carriage, by tauto⟩
  all_goals exact ⟨by decide, by decide, by decide, by simp⟩

theorem isCode_shownText {text : List Char} {c : Char} (member : c ∈ shownText text) : isCode c = true :=
  List.mem_takeWhile_imp member

theorem mem_shownLine {text : List Char} {c : Char} (member : c ∈ shownLine text) : c ≠ '\t' ∧ isCode c = true := by
  rcases List.mem_append.mp (show c ∈ ".string <".toList ++ shownText text from member) with early | late
  · exact ⟨by rintro rfl; exact absurd early (by decide), (show ∀ c ∈ ".string <".toList, isCode c = true by decide) c early⟩
  · exact ⟨(mem_quotedText (List.takeWhile_subset _ late)).2.1, isCode_shownText late⟩

theorem headText_stringLine (text : List Char) : headText (stringLine text) = shownLine text := by
  have front : ∀ c ∈ ".string <".toList, isCode c = true := by decide
  have cut : (".string <".toList ++ quotedText text).takeWhile isCode = ".string <".toList ++ shownText text :=
    List.takeWhile_append_of_pos front
  have shown : (stringLine text).takeWhile isCode = shownLine text := cut
  rw [headText_eq, shown, expandTabs_of_not_mem fun tab => (mem_shownLine tab).1 rfl]

theorem cleanText_shownLine (text : List Char) : cleanText (shownLine text) = shownLine text := by
  have whole : (shownLine text).takeWhile isCode = shownLine text :=
    List.takeWhile_eq_self_iff.mpr fun c member => (mem_shownLine member).2
  rw [cleanText_eq, headText_eq, whole, expandTabs_of_not_mem fun tab => (mem_shownLine tab).1 rfl]

/-- It is all of the line when the text has no character that begins a comment. -/
theorem shownText_eq {text : List Char} (code : ∀ c ∈ text, isCode c = true) : shownText text = quotedText text := by
  rw [shownText, List.takeWhile_eq_self_iff]
  intro c member
  obtain ⟨-, -, -, inside | rfl | rfl | rfl | rfl | rfl | rfl | rfl⟩ := mem_quotedText member
  · exact code c inside
  all_goals decide

theorem isCode_of_isLabelChar {c : Char} (label : isLabelChar c = true) : isCode c = true := by
  rw [isCode, Bool.and_eq_true, bne_iff_ne, bne_iff_ne]
  constructor
  all_goals
    rintro rfl
    exact absurd label (by decide)

/-- A line that begins with the word of a string, or without a dot, is no other directive with a dot. -/
theorem passed_front {front rest : List Char} (label : ∀ c ∈ front, isLabelChar c = true)
    (code : ∀ c ∈ rest, isCode c = true) (name : front = ".string".toList ∨ front ≠ [] ∧ '.' ∉ front) :
    Passed (front ++ ' ' :: '<' :: rest) := by
  have text : ∃ c tail, front = c :: tail ∧ directiveText (front ++ ' ' :: '<' :: rest) =
    c.toLower :: (tail ++ ' ' :: '<' :: rest).map Char.toLower := by
    obtain ⟨c, tail, rfl⟩ := List.exists_cons_of_ne_nil (show front ≠ [] by
      rcases name with rfl | ⟨nonempty, -⟩
      · exact List.cons_ne_nil _ _
      · exact nonempty)
    refine ⟨c, tail, rfl, ?_⟩
    rw [directiveText, List.cons_append, List.dropWhile_cons_of_neg]
    · rfl
    · intro blank
      have inside := label c List.mem_cons_self
      rw [not_isLabelChar_of_isSpace blank] at inside
      cases inside
  have away (sign : Char) (word : List Char) (differs : sign ≠ 's') :
    ¬ '.' :: sign :: word <+: directiveText (front ++ ' ' :: '<' :: rest) := by
    intro occurs
    obtain ⟨c, tail, rfl, shape⟩ := text
    rw [shape] at occurs
    obtain ⟨first, behind⟩ := List.cons_prefix_cons.mp occurs
    obtain rfl := eq_of_toLower (by decide) first.symm
    rcases name with same | ⟨-, dotless⟩
    · obtain rfl := List.tail_eq_of_cons_eq same
      exact differs (List.cons_prefix_cons.mp behind).1
    · exact dotless List.mem_cons_self
  refine ⟨?_, fun _ tables => ?_⟩
  · intro c member
    simp only [List.mem_append, List.mem_cons] at member
    rcases member with inside | rfl | rfl | later
    · exact isCode_of_isLabelChar (label c inside)
    · rfl
    · rfl
    · exact code c later
  · have fails {name : List Char} {body : Regex} (absent : ¬ '.' :: name <+: directiveText (front ++ ' ' :: '<' :: rest))
        (small : ('.' :: name).map Char.toLower = '.' :: name) :
        lineMatches (seq (star space) (seq (litNoCase ('.' :: name)) body)) (front ++ ' ' :: '<' :: rest) = false := by
      rw [← Bool.not_eq_true]
      exact fun matched =>
        absent (prefix_directiveText (by decide) (@reads_litNoCase ('.' :: name)) (fun _ same => same.trans small) matched)
    have org : lineMatches orgPattern (front ++ ' ' :: '<' :: rest) = false :=
      fails (away 'o' "rg".toList (by decide)) (by decide)
    have lab : lineMatches labPattern (front ++ ' ' :: '<' :: rest) = false :=
      fails (away 'l' "ab".toList (by decide)) (by decide)
    have equ : lineMatches equPattern (front ++ ' ' :: '<' :: rest) = false :=
      fails (away 'e' "qu".toList (by decide)) (by decide)
    rw [declare, org, lab, equ, if_neg Bool.false_ne_true, if_neg Bool.false_ne_true, if_neg Bool.false_ne_true]

theorem not_directive_shownLine (text : List Char) (directive : Directive) :
    lineMatches directive.pattern (shownLine text) = false := by
  rw [← Bool.not_eq_true]
  intro matched
  have occurs := Directive.word_front matched
  exact absurd (List.cons_prefix_cons.mp occurs).1 (by decide)

/-! ## When the text is emitted -/

/-- The lines of the section of a line, without comments and tabs. -/
def sectionAt (file : List (List Char)) (index : ℕ) : List (List Char) :=
  sectionOf ((file.take index).map cleanText) (cleanText (file.getD index [])) ((file.drop (index + 1)).map cleanText)

/-- The upper label of the section of a line. -/
def upperAt (file : List (List Char)) (index : ℕ) : List Char := upperLabel ((file.take index).map cleanText)

/-- Nothing in the text begins a comment, and no word of the line is a sub-label of its section. -/
structure Undisturbed (section_ : List (List Char)) (text : List Char) : Prop where
  code : ∀ c ∈ text, isCode c = true
  words : ∀ sub ∈ subLabels section_, sub ∉ runs isLabelChar (stringLine text)

/-- The directive itself is a sub-label, and the name it stands for begins with a mnemonic without operands whose opcode is
the only character of the text. -/
def Disguised (upper : List Char) (section_ : List (List Char)) (text : List Char) : Prop :=
  ".string".toList ∈ subLabels section_ ∧ ∃ mnemonic c, text = [c] ∧
    findName (firstWord (scopedName upper ".string".toList)) = some mnemonic ∧ mnemonic.argumentCount = 0 ∧
    mnemonic.opcode = BitVec.ofNat 8 c.toNat

section Emission

variable {bc : Calculator} {origin number : ℕ} {assembly : Assembly} {text : List Char}

theorem isRun_string : IsRun isLabelChar ".string".toList := by decide

/-- The first run behind the bracket is empty. -/
theorem split_shownText (text : List Char) : (split isLabelChar (shownText text)).1 = [] :=
  split_fst_eq_nil fun c head => by
    obtain rfl : ' ' = c := Option.some.inj head
    decide

/-- What the sub-labels leave of the line, in whatever section it is. -/
theorem replaceMarkers_shownLine {reading : TargetReading} {file section_ : List (List Char)}
    (plain : PlainLabels (upperLabel file) section_) :
    ∃ rest, replaceMarkers reading (sectionMarkers (upperLabel file) section_) (shownLine text) =
        .ok ((if ".string".toList ∈ subLabels section_ then scopedName (upperLabel file) ".string".toList
          else ".string".toList) ++ ' ' :: '<' :: rest) ∧
      (∀ c ∈ rest, c ∈ shownText text ∨ isLabelChar c = true) ∧
      (rest = shownText text ∧ (∀ sub ∈ subLabels section_, sub ∉ runs isLabelChar (shownText text)) ∨
        rest.count '.' < (shownText text).count '.') :=
  replaceMarkers_head plain isRun_string (by rw [split_shownText]; exact List.not_mem_nil)

theorem IsText.small {c : Char} (inside : IsText c) : 0 < c.toNat ∧ c.toNat < 127 := by
  rcases inside with rfl | rfl | rfl | ⟨low, high⟩
  · decide
  · decide
  · decide
  · omega

/-- No operand begins with a character of a text. -/
theorem IsText.not_operand {c : Char} (inside : IsText c) :
    BitVec.ofNat 8 c.toNat ∉ [REGISTER_CODE, CONSTANT_CODE, MEMORY_CODE] := by
  rcases inside with rfl | rfl | rfl | ⟨low, high⟩
  · decide
  · decide
  · decide
  · intro member
    have value (code : Byte) (same : BitVec.ofNat 8 c.toNat = code) : c.toNat = code.toNat := by
      rw [← same, BitVec.toNat_ofNat, Nat.mod_eq_of_lt (by omega)]
    simp only [List.mem_cons, List.not_mem_nil, or_false] at member
    rcases member with register | constant | memory
    · exact absurd (value _ register) (by rw [show REGISTER_CODE.toNat = 1 from rfl]; omega)
    · exact absurd (value _ constant) (by rw [show CONSTANT_CODE.toNat = 2 from rfl]; omega)
    · exact absurd (value _ memory) (by rw [show MEMORY_CODE.toNat = 3 from rfl]; omega)

theorem Mnemonic.opcode_ne_dot (mnemonic : Mnemonic) : mnemonic.opcode ≠ BitVec.ofNat 8 '.'.toNat := by
  cases mnemonic
  all_goals decide

theorem textBytes_inj {first second : List Char} (small : ∀ c ∈ first, c.toNat < 256) (small' : ∀ c ∈ second, c.toNat < 256)
    (same : textBytes first = textBytes second) : first = second := by
  induction first generalizing second with
  | nil => exact (List.map_eq_nil_iff.mp same.symm).symm
  | cons c first ih =>
    cases second with
    | nil => cases same
    | cons d second =>
      obtain ⟨low, later⟩ := List.forall_mem_cons.mp small
      obtain ⟨low', later'⟩ := List.forall_mem_cons.mp small'
      obtain ⟨head, tail⟩ := List.cons.inj same
      have value := congrArg BitVec.toNat head
      rw [BitVec.toNat_ofNat, BitVec.toNat_ofNat, Nat.mod_eq_of_lt low, Nat.mod_eq_of_lt low'] at value
      rw [Char.toNat_inj.mp value, ih later later' tail]

/-- A text has no zero bytes. -/
theorem textBytes_zeros (chars : ∀ c ∈ text, IsText c) {count : ℕ} (zeros : textBytes text = List.replicate count 0) :
    text = [] := by
  cases text with
  | nil => rfl
  | cons c text =>
    have inside : BitVec.ofNat 8 c.toNat ∈ textBytes (c :: text) := List.mem_cons_self
    rw [zeros] at inside
    have zero := List.eq_of_mem_replicate inside
    obtain ⟨positive, small⟩ := (chars c List.mem_cons_self).small
    have value := congrArg BitVec.toNat zero
    rw [BitVec.toNat_ofNat, Nat.mod_eq_of_lt (by omega)] at value
    exact absurd value positive.ne'

theorem not_mem_of_run {word : List Char} (run : IsRun isLabelChar word) {c : Char} (separates : isLabelChar c = false) :
    c ∉ word :=
  fun member => by rw [run c member] at separates; cases separates

/-- The emitted text comes from behind the bracket. -/
theorem content_of_processString {word rest : List Char} (run : IsRun isLabelChar word) (small : ∀ c ∈ rest, c.toNat < 256)
    (chars : ∀ c ∈ text, IsText c)
    (done : processString (word ++ ' ' :: '<' :: rest) = .ok (some (textBytes text))) :
    (∀ c ∈ text, c ∈ rest ∨ c = '\n' ∨ c = '\t' ∨ c = '\r') ∧ text.count '.' ≤ rest.count '.' := by
  have away {c : Char} (label : isLabelChar c = false) (space : c ≠ ' ') (bracket : c ≠ '<') : c ∉ word ++ [' ', '<'] := by
    simp [not_mem_of_run run label, space, bracket]
  have unescaped : unescapeString (word ++ ' ' :: '<' :: rest) = word ++ [' ', '<'] ++ unescapeString rest := by
    rw [← unescapeString_append (away (by decide) (by decide) (by decide)), List.append_assoc]
    rfl
  rw [processString] at done
  split at done
  · cases done
  · dsimp only at done
    split at done
    · rename_i content found
      obtain ⟨front, back, first, -, shape⟩ := betweenQuotes_shape found
      rw [unescaped] at shape
      obtain ⟨more, behind⟩ : ∃ more, unescapeString rest = more ++ '"' :: (content ++ '"' :: back) := by
        rcases List.append_eq_append_iff.mp shape with ⟨more, -, behind⟩ | ⟨more, inside, behind⟩
        · exact ⟨more, behind⟩
        · cases more with
          | nil => exact ⟨[], behind.symm⟩
          | cons c more =>
            obtain rfl := (List.cons.inj behind).1
            have quote : '"' ∈ word ++ [' ', '<'] := inside ▸ List.mem_append_right _ List.mem_cons_self
            exact absurd quote (away (by decide) (by decide) (by decide))
      have known : ∀ c ∈ content, c ∈ rest ∨ c = '\n' ∨ c = '\t' ∨ c = '\r' := by
        intro c member
        exact mem_unescapeString (by simp [behind, member])
      have same : textBytes content = textBytes text := Option.some.inj (Except.ok.inj done)
      obtain rfl : content = text := by
        refine textBytes_inj (fun c member => ?_) (fun c member => ?_) same
        · rcases known c member with inside | rfl | rfl | rfl
          · exact small c inside
          all_goals decide
        · exact (chars c member).small.2.trans (by decide)
      refine ⟨known, ?_⟩
      have total := count_unescapeString rest
      rw [behind, List.count_append, List.count_cons, List.count_append] at total
      omega
    · cases done

/-- The ways in which a line emits a text. -/
theorem emitsText_cases {word rest : List Char} (run : IsRun isLabelChar word)
    (emits : EmitsText bc origin assembly (number, word ++ ' ' :: '<' :: rest) text) :
    processString (word ++ ' ' :: '<' :: rest) = .ok (some (textBytes text)) ∨
      (∃ count, textBytes text = List.replicate count 0) ∧ '.' ∈ word ++ ' ' :: '<' :: rest ∨
        ∃ rest', encodeInstruction bc (word ++ ' ' :: rest') = .ok (textBytes text) := by
  obtain ⟨after, done, buffer⟩ := emits
  rw [assembleLine_bracket (by simp)] at done
  cases string : processString (word ++ ' ' :: '<' :: rest) with
  | error e =>
    rw [assembleCode, string] at done
    cases done
  | ok made =>
    cases made with
    | some code =>
      rw [assembleCode, string] at done
      obtain rfl := Except.ok.inj done
      have same : code = textBytes text := List.singleton_injective (List.append_cancel_left buffer)
      exact .inl (by rw [same])
    | none =>
      have plain : '@' ∉ word ∧ '\'' ∉ word ∧ '<' ∉ word :=
        ⟨not_mem_of_run run (by decide), not_mem_of_run run (by decide), not_mem_of_run run (by decide)⟩
      obtain ⟨code, emitted, kind⟩ := assembleCode_cases plain string done
      obtain rfl : code = textBytes text := List.singleton_injective (List.append_cancel_left (emitted.symm.trans buffer))
      exact .inr kind

theorem count_shownText (text : List Char) : (shownText text).count '.' ≤ text.count '.' := by
  have whole : (quotedText text).count '.' = text.count '.' := by
    rw [quotedText, List.count_cons, List.count_cons, List.count_append, count_escapeString]
    rfl
  rw [← whole]
  exact (List.takeWhile_sublist _).count_le _

theorem small_of_isLabelChar {c : Char} (label : isLabelChar c = true) : c.toNat < 256 := by
  simp only [isLabelChar, isLabelStart, Numerals.isDecimal, Bool.or_eq_true, decide_eq_true_eq, beq_iff_eq] at label
  rcases label with (((⟨-, high⟩ | ⟨-, high⟩) | rfl) | rfl) | ⟨-, high⟩
  · exact (show c.toNat ≤ 'Z'.toNat from high).trans_lt (by decide)
  · exact (show c.toNat ≤ 'z'.toNat from high).trans_lt (by decide)
  · decide
  · decide
  · exact (show c.toNat ≤ '9'.toNat from high).trans_lt (by decide)

/-- A text that is emitted by a `.string` line is shown with all of its characters. -/
theorem shown_of_processString {word rest : List Char} (run : IsRun isLabelChar word) (chars : ∀ c ∈ text, IsText c)
    (made : ∀ c ∈ rest, c ∈ shownText text ∨ isLabelChar c = true)
    (kind : rest = shownText text ∨ rest.count '.' < (shownText text).count '.')
    (done : processString (word ++ ' ' :: '<' :: rest) = .ok (some (textBytes text))) :
    rest = shownText text ∧ ∀ c ∈ text, isCode c = true := by
  have small : ∀ c ∈ rest, c.toNat < 256 := by
    intro c member
    rcases made c member with shown | label
    · obtain ⟨-, -, -, inside | rfl | rfl | rfl | rfl | rfl | rfl | rfl⟩ := mem_quotedText (List.takeWhile_subset _ shown)
      · exact (chars c inside).small.2.trans (by decide)
      all_goals decide
    · exact small_of_isLabelChar label
  obtain ⟨known, dots⟩ := content_of_processString run small chars done
  have same : rest = shownText text := by
    rcases kind with same | fewer
    · exact same
    · have bound := count_shownText text
      omega
  refine ⟨same, fun c member => ?_⟩
  rcases known c member with inside | rfl | rfl | rfl
  · rw [same] at inside
    exact isCode_shownText inside
  all_goals decide

/-- A word without a dot begins no `.string` line with such a text. -/
theorem processString_dotless {word : List Char} (dotless : '.' ∉ word) (code : ∀ c ∈ text, isCode c = true) :
    processString (word ++ ' ' :: '<' :: shownText text) = .ok none := by
  rw [shownText_eq code]
  cases searched : search stringPattern (word ++ ' ' :: '<' :: quotedText text) with
  | none => rw [processString, searched]
  | some found =>
    exfalso
    obtain ⟨split, derivation⟩ := searchFrom_derives searched
    obtain ⟨front, directive, gap, white, body, gap', back, matched, -, named, -, blank, -⟩ :=
      derives_stringPattern.mp derivation
    obtain ⟨name, rfl⟩ : ∃ name, directive = '.' :: name := by
      cases directive with
      | nil => cases named
      | cons c name => exact ⟨name, by rw [eq_of_toLower (d := '.') (by decide) (List.cons.inj named).1]⟩
    have whole : (word ++ " < \"".toList) ++ (escapeString text ++ '"' :: " >".toList) =
        (found.before ++ front) ++ '.' ::
          ((name ++ gap) ++ '<' :: (white ++ '"' :: (body ++ '"' :: (gap' ++ '>' :: (back ++ found.rest))))) := by
      rw [matched] at split
      simpa [quotedText] using split
    -- the dot is in the escaped text, since there is none in front of it
    have away : '.' ∉ word ++ " < \"".toList := by
      simp [dotless]
    rcases List.append_eq_append_iff.mp whole with ⟨between, -, inside⟩ | ⟨between, early, inside⟩
    · rw [← List.cons_append, ← List.append_assoc] at inside
      exact not_quoted_of_escapeString blank (by simp) inside
    · cases between with
      | nil =>
        rw [List.nil_append, ← List.cons_append] at inside
        exact not_quoted_of_escapeString blank (by simp) inside.symm
      | cons c between =>
        obtain rfl := (List.cons.inj inside).1
        exact away (early ▸ List.mem_append_right _ List.mem_cons_self)

/-- With one apostrophe at most, there is no character value to put. -/
theorem processAsciiValue_single {input : List Char} (single : input.count '\'' ≤ 1) :
    processAsciiValue input = .ok input := by
  have none : Regex.iterate asciiValuePattern input = [] := by
    refine List.eq_nil_iff_forall_not_mem.mpr fun hit member => ?_
    obtain ⟨_, derivation⟩ := derives_of_mem_iterate member
    obtain ⟨tail, text, derivation⟩ := derives_chr_seq.mp derivation
    obtain ⟨body, last, _, _, rfl, -, -, derivation⟩ := derives_seq.mp derivation
    obtain ⟨rfl, -⟩ := derives_chr.mp derivation
    have inside := (infix_of_mem_iterate member).sublist.count_le '\''
    rw [text, List.count_cons_self, List.count_append, List.count_singleton_self] at inside
    omega
  rw [processAsciiValue, none]
  rfl

/-- A line without a dot and with at most one apostrophe whose first word is a mnemonic without operands is that
instruction. -/
theorem assembleCode_bare {front rest : List Char} {mnemonic : Mnemonic} (plain : '@' ∉ front ∧ '\'' ∉ front ∧ '<' ∉ front)
    (dotless : '.' ∉ front ++ ' ' :: rest) (single : (front ++ ' ' :: rest).count '\'' ≤ 1)
    (found : findName (firstWord front) = some mnemonic) (zero : mnemonic.argumentCount = 0) :
    ∃ after, assembleCode bc origin assembly (front ++ ' ' :: rest) = .ok after ∧
      after.instruction_buffer_set = assembly.instruction_buffer_set ++ [[mnemonic.opcode]] := by
  obtain ⟨rest₁, first, dots₁⟩ :=
    @replaceAll_behind front '@' ['@'] (Numerals.decimal origin) plain.1 (by decide) (dot_not_mem_decimal _) rest
  obtain ⟨rest₂, second, dots₂⟩ := @replaceAll_behind front '@' []
    (Numerals.decimal ((codeSizeNow assembly.instruction_buffer_set + origin) % 2 ^ 64)) plain.1 (by decide)
      (dot_not_mem_decimal _) rest₁
  have dotless' : '.' ∉ front ++ ' ' :: rest₂ := fun member => dotless (dots₁ (dots₂ member))
  have single' : (front ++ ' ' :: rest₂).count '\'' ≤ 1 := by
    have away (n : ℕ) : '\'' ∉ Numerals.decimal n :=
      fun member => absurd (Numerals.isDecimal_of_mem_decimal member) (by decide)
    rw [← second, ← first, replaceAll_eq, replaceAll_eq]
    exact ((Text.count_replaceAll_le (away _) _).trans (Text.count_replaceAll_le (away _) _)).trans single
  have string : search stringPattern (front ++ ' ' :: rest) = none := search_none dot_of_directive dotless
  have resvb : search resvbPattern (front ++ ' ' :: rest₂) = none := search_none dot_of_directive dotless'
  have data : search dataPattern (front ++ ' ' :: rest₂) = none := search_none dot_of_dataPattern dotless'
  have ascii := processAsciiValue_single single'
  rw [assembleCode, processString, string]
  simp only [Effects.except_ok_bind]
  rw [show "@@".toList = ['@', '@'] from rfl, first, show "@".toList = ['@'] from rfl, second, processResvb, resvb]
  simp only [Effects.except_ok_bind, ascii, processData, data, Option.map_none]
  cases named : markerInLine assembly.appeared_line_markers (front ++ ' ' :: rest₂) with
  | none =>
    dsimp only
    rw [encodeInstruction_bare found zero]
    exact ⟨_, rfl, rfl⟩
  | some hit =>
    obtain ⟨tail, operand⟩ := markerInLine_bracket named
    obtain ⟨rest₃, replaced, -⟩ := @replaceAll_behind front '<' tail placeholder plain.2.2 (by decide) (by decide) rest₂
    dsimp only
    rw [operand, replaced, encodeInstruction_bare found zero]
    exact ⟨_, rfl, rfl⟩

/-- A line that still begins with the directive emits the text when all of it is there. -/
theorem rest_of_emitsText {rest : List Char} (chars : ∀ c ∈ text, IsText c)
    (made : ∀ c ∈ rest, c ∈ shownText text ∨ isLabelChar c = true)
    (kind : rest = shownText text ∨ rest.count '.' < (shownText text).count '.')
    (emits : EmitsText bc origin assembly (number, ".string".toList ++ ' ' :: '<' :: rest) text) :
    rest = shownText text ∧ ∀ c ∈ text, isCode c = true := by
  rcases emitsText_cases isRun_string emits with done | ⟨⟨count, zeros⟩, -⟩ | ⟨rest', encoded⟩
  · exact shown_of_processString isRun_string chars made kind done
  · obtain rfl := textBytes_zeros chars zeros
    refine ⟨kind.resolve_right ?_, ?_⟩
    · have bound := count_shownText []
      rw [List.count_nil] at bound
      omega
    · exact fun c member => absurd member List.not_mem_nil
  · obtain ⟨mnemonic, found, -⟩ := encodeInstruction_front (by decide) encoded
    rw [show findName (firstWord ".string".toList) = none by decide] at found
    cases found

theorem count_apostrophe (c : Char) : (shownText [c]).count '\'' ≤ 1 := by
  refine ((List.takeWhile_sublist _).count_le _).trans ?_
  rw [quotedText, List.count_cons, List.count_cons, List.count_append, escapeString_cons, List.count_append]
  rcases escapeChar_cases c with ⟨plain, -⟩ | ⟨sign, escaped, kind⟩
  · rw [plain]
    exact Nat.add_le_add (List.count_le_length) (Nat.le_refl 0)
  · rw [escaped]
    rcases kind with ⟨rfl, rfl⟩ | ⟨rfl, rfl⟩ | ⟨rfl, rfl⟩ | ⟨rfl | rfl | rfl, rfl⟩
    all_goals decide

/-- A line that begins with a name without a dot emits the text when it is an instruction of one byte, and that byte is
the text. -/
theorem emitsText_dotless_iff {word rest : List Char} (run : IsRun isLabelChar word) (nonempty : firstWord word ≠ [])
    (dotless : '.' ∉ word)
    (chars : ∀ c ∈ text, IsText c) (made : ∀ c ∈ rest, c ∈ shownText text ∨ isLabelChar c = true)
    (kind : rest = shownText text ∨ rest.count '.' < (shownText text).count '.') :
    EmitsText bc origin assembly (number, word ++ ' ' :: '<' :: rest) text ↔ ∃ mnemonic c, text = [c] ∧
      findName (firstWord word) = some mnemonic ∧ mnemonic.argumentCount = 0 ∧ mnemonic.opcode = BitVec.ofNat 8 c.toNat := by
  constructor
  · intro emits
    rcases emitsText_cases run emits with done | ⟨⟨count, zeros⟩, dotted⟩ | ⟨rest', encoded⟩
    · obtain ⟨rfl, code⟩ := shown_of_processString run chars made kind done
      rw [processString_dotless dotless code] at done
      cases done
    · obtain rfl := textBytes_zeros chars zeros
      have bound := count_shownText []
      rw [List.count_nil] at bound
      have none : rest.count '.' = 0 := by
        rcases kind with rfl | fewer
        · omega
        · omega
      simp [dotless, List.count_eq_zero.mp none] at dotted
    · obtain ⟨mnemonic, found, ⟨zero, bytes⟩ | ⟨code, known, member⟩⟩ := encodeInstruction_front nonempty encoded
      · obtain ⟨c, rfl, byte⟩ := List.map_eq_singleton_iff.mp bytes
        exact ⟨mnemonic, c, rfl, found, zero, byte.symm⟩
      · obtain ⟨c, inside, rfl⟩ := List.mem_map.mp member
        exact absurd known (chars c inside).not_operand
  · rintro ⟨mnemonic, c, rfl, found, zero, byte⟩
    have away : c ≠ '.' := by
      rintro rfl
      exact Mnemonic.opcode_ne_dot mnemonic byte
    have bound := count_shownText [c]
    rw [List.count_singleton, if_neg (by simpa using away)] at bound
    obtain rfl : rest = shownText [c] := kind.resolve_right (by omega)
    have away' {sign : Char} (separates : isLabelChar sign = false) : sign ∉ word := not_mem_of_run run separates
    obtain ⟨after, done, buffer⟩ := @assembleCode_bare bc origin assembly word ('<' :: shownText [c]) mnemonic
      ⟨away' (by decide), away' (by decide), away' (by decide)⟩
      (by simpa [dotless] using List.count_eq_zero.mp (Nat.le_zero.mp bound))
      (by
        rw [List.count_append, List.count_eq_zero.mpr (away' (by decide)), Nat.zero_add]
        exact count_apostrophe c) found zero
    refine ⟨after, (assembleLine_bracket (by simp)).mpr done, ?_⟩
    rw [buffer, byte]
    rfl

theorem runs_stringLine (text : List Char) :
    runs isLabelChar (stringLine text) = ".string".toList :: [] :: runs isLabelChar (quotedText text) := by
  have first := @runs_cons isLabelChar ".string".toList ' ' isRun_string rfl ('<' :: quotedText text)
  have second := @runs_cons isLabelChar [] '<' (fun c member => absurd member List.not_mem_nil) rfl (quotedText text)
  exact first.trans (congrArg _ second)

/-- An undisturbed line stays, whatever else the labels of the section are. -/
theorem replaceMarkers_undisturbed {reading : TargetReading} {upper : List Char} {section_ : List (List Char)}
    (chars : ∀ c ∈ text, IsText c) (undisturbed : Undisturbed section_ text) :
    replaceMarkers reading (sectionMarkers upper section_) (shownLine text) = .ok (stringLine text) ∧
    Passed (stringLine text) := by
  have whole : shownLine text = stringLine text :=
    congrArg (fun shown => ".string".toList ++ ' ' :: '<' :: shown) (shownText_eq undisturbed.code)
  refine ⟨?_, passed_front isRun_string (fun c member => ?_) (.inl rfl)⟩
  · rw [whole]
    refine replaceMarkers_untouched undisturbed.words fun c member blank => ?_
    rcases List.mem_append.mp (show c ∈ ".string <".toList ++ quotedText text from member) with early | late
    · exact (show ∀ c ∈ ".string <".toList, Numerals.isSpace c = true → c = ' ' by decide) c early blank
    · obtain ⟨feed, tab, carriage, inside | rfl | rfl | rfl | rfl | rfl | rfl | rfl⟩ := mem_quotedText late
      · have visible := ((chars c inside).resolve_left feed).resolve_left tab |>.resolve_left carriage
        simp only [Numerals.isSpace, Bool.or_eq_true, beq_iff_eq] at blank
        rcases blank with ((((rfl | rfl) | rfl) | rfl) | rfl) | rfl
        · rfl
        all_goals exact absurd visible.1 (by decide)
      all_goals first | rfl | cases blank
  · rw [← shownText_eq undisturbed.code] at member
    exact isCode_shownText member

/-- What is left of a `.string` line after the sub-labels are replaced emits its text exactly when it is undisturbed or
disguised. -/
theorem emitsText_replaced {reading : TargetReading} {file section_ : List (List Char)} {line : List Char}
    (chars : ∀ c ∈ text, IsText c)
    (plain : PlainLabels (upperLabel file) section_)
    (replaced : replaceMarkers reading (sectionMarkers (upperLabel file) section_) (shownLine text) = .ok line) :
    Passed line ∧ ∀ bc origin assembly number, (EmitsText bc origin assembly (number, line) text ↔
      Undisturbed section_ text ∨ Disguised (upperLabel file) section_ text) := by
  obtain ⟨rest, done, made, kind⟩ := @replaceMarkers_shownLine text reading file section_ plain
  have same := Except.ok.inj (done.symm.trans replaced)
  have code : ∀ c ∈ rest, isCode c = true := by
    intro c member
    rcases made c member with shown | label
    · exact isCode_shownText shown
    · exact isCode_of_isLabelChar label
  by_cases known : ".string".toList ∈ subLabels section_
  · rw [if_pos known] at same
    subst same
    have run := isRun_scopedName plain.upper isRun_string
    have dotless := dot_not_mem_scopedName (dot_not_mem_upperLabel file) ".string".toList
    have nonempty := firstWord_scopedName (upperLabel file)
    have disturbed : ¬ Undisturbed section_ text := by
      intro undisturbed
      refine undisturbed.words _ known ?_
      rw [runs_stringLine]
      exact List.mem_cons_self
    refine ⟨passed_front run code (.inr ⟨?_, dotless⟩), ?_⟩
    · intro none
      rw [none] at nonempty
      exact nonempty rfl
    · intro bc origin assembly number
      rw [emitsText_dotless_iff run nonempty dotless chars made (kind.imp_left And.left)]
      exact ⟨fun bare => .inr ⟨known, bare⟩, fun either => (either.resolve_left disturbed).2⟩
  · rw [if_neg known] at same
    subst same
    refine ⟨passed_front isRun_string code (.inl rfl), fun bc origin assembly number =>
      ⟨fun emits => .inl ?_, fun either => ?_⟩⟩
    · obtain ⟨rfl, all⟩ := rest_of_emitsText chars made (kind.imp_left And.left) emits
      have absent := (kind.resolve_right (Nat.lt_irrefl _)).2
      rw [shownText_eq all] at absent
      refine ⟨all, fun sub member => ?_⟩
      rw [runs_stringLine, List.mem_cons, List.mem_cons, not_or, not_or]
      exact ⟨fun same => known (same ▸ member), List.ne_nil_of_mem (subLabels_chars member).1, absent sub member⟩
    · have undisturbed := either.resolve_right fun disguised => known disguised.1
      have stays := Except.ok.inj (replaced.symm.trans (replaceMarkers_undisturbed chars undisturbed).1)
      rw [stays]
      exact emitsText_stringLine bc origin number assembly text

end Emission

section Preprocessed

variable {env : Environment} {fuel index : ℕ} {lines file' : List (List Char)} {line text : List Char}
    {headers : List IncludeFile}
  {tables tables' : Tables}

theorem preProcess_at (place : lines[index]? = some line) (unmarked : lineMatches lineMarkPattern (cleanText line) = false)
    (done : (preProcess env fuel lines headers tables).run = some (.ok (file', tables')))
    (none : tables'.equ_replacement.entries = []) :
    ∃ text, replaceMarkers env.reading (sectionMarkers (upperAt lines index) (sectionAt lines index))
    (cleanText line) = .ok text ∧
      (Passed text → file'[index]? = some text) := by
  obtain ⟨inside, rfl⟩ := List.getElem?_eq_some_iff.mp place
  have whole : lines = lines.take index ++ lines[index] :: lines.drop (index + 1) := by
    rw [List.getElem_cons_drop, List.take_append_drop]
  have length : (lines.take index).length = index := by rw [List.length_take, min_eq_left inside.le]
  have shown : lines.getD index [] = lines[index] := by rw [List.getD_eq_getElem?_getD, place, Option.getD_some]
  rw [whole] at done
  have rewritten := preProcess_line unmarked done none
  rw [length, ← shown] at rewritten
  rw [← shown]
  exact rewritten

/-- A blanked line stays blank. -/
theorem preProcess_blank (place : lines[index]? = some [])
    (done : (preProcess env fuel lines headers tables).run = some (.ok (file', tables')))
    (none : tables'.equ_replacement.entries = []) :
    file'[index]? = some [] := by
  obtain ⟨blank, rewritten, passes⟩ := preProcess_at place (by decide) done none
  have stays : replaceMarkers env.reading (sectionMarkers (upperAt lines index) (sectionAt lines index)) [] = .ok [] := by
    refine replaceMarkers_untouched (fun sub member => ?_) fun c member => absurd member List.not_mem_nil
    rw [show runs isLabelChar [] = [[]] from rfl, List.mem_singleton]
    exact List.ne_nil_of_mem (subLabels_chars member).1
  obtain rfl : [] = blank := Except.ok.inj (stays.symm.trans rewritten)
  exact passes ⟨fun c member => absurd member List.not_mem_nil, fun visible => absurd visible (by decide)⟩

theorem not_emitsText_blank {bc : Calculator} {origin number : ℕ} {assembly : Assembly} :
    ¬ EmitsText bc origin assembly (number, []) text := by
  rintro ⟨after, done, buffer⟩
  obtain rfl := Except.ok.inj (done : Except.ok assembly = Except.ok after)
  exact absurd (congrArg List.length buffer) (by simp)

/-- A shown line is rewritten with the sub-labels of its section. -/
theorem preProcess_shown (place : lines[index]? = some (shownLine text))
    (done : (preProcess env fuel lines headers tables).run = some (.ok (file', tables')))
    (none : tables'.equ_replacement.entries = []) :
    ∃ line, replaceMarkers env.reading (sectionMarkers (upperAt lines index) (sectionAt lines index))
    (shownLine text) = .ok line ∧
      (Passed line → file'[index]? = some line) := by
  have bracket : '<' ∈ shownLine text := List.mem_append_right _ (List.mem_cons_of_mem _ List.mem_cons_self)
  have clean := cleanText_shownLine text
  have rewritten := preProcess_at place (by rw [clean]; exact not_label_of_bracket bracket) done none
  rwa [clean] at rewritten

end Preprocessed

/-- The text of a `.string` line that is not skipped when the scan reaches it is emitted when it is undisturbed. When the
labels of its section are made of label characters, it is emitted in no other case than that and a disguised one. -/
theorem emitsText_exact {files : FileSystem} {include_path : List (List Char)} {env : Environment} {fuel : ℕ}
    {before after lines file' : List (List Char)} {text : List Char} {definition definition' : Definitions}
    {header_files header_files' headers : List IncludeFile} {tables tables' : Tables} (chars : ∀ c ∈ text, IsText c)
    (head : headProcess files include_path (before ++ stringLine text :: after) definition header_files =
      .ok (lines, definition', header_files'))
    (done : (preProcess env fuel lines headers tables).run = some (.ok (file', tables')))
    (none : tables'.equ_replacement.entries = []) :
    ∃ earlier reached, headLines files include_path 1 ⟨false, false, definition, header_files⟩ before =
        .ok (earlier, reached) ∧
      (reached.skipping = false → Undisturbed (sectionAt lines before.length) text →
        ∃ line, file'[before.length]? = some line ∧
          ∀ bc origin assembly number, EmitsText bc origin assembly (number, line) text) ∧
      (PlainLabels (upperAt lines before.length) (sectionAt lines before.length) →
        ∃ line, file'[before.length]? = some line ∧ ∀ bc origin assembly number,
          (EmitsText bc origin assembly (number, line) text ↔ reached.skipping = false ∧
            (Undisturbed (sectionAt lines before.length) text ∨
              Disguised (upperAt lines before.length) (sectionAt lines before.length) text))) := by
  have plain : ∀ directive : Directive, lineMatches directive.pattern (headText (stringLine text)) = false := by
    rw [headText_stringLine]
    exact not_directive_shownLine text
  obtain ⟨earlier, reached, scanned, kept⟩ := headProcess_line plain head
  rw [headText_stringLine] at kept
  refine ⟨earlier, reached, scanned, ?_⟩
  cases skips : reached.skipping with
  | true =>
    rw [skips] at kept
    refine ⟨fun visible => absurd visible (by decide), fun _ =>
      ⟨[], preProcess_blank kept done none, fun bc origin assembly number => ?_⟩⟩
    exact ⟨fun emits => absurd emits not_emitsText_blank, fun visible => absurd visible.1 (by decide)⟩
  | false =>
    rw [skips] at kept
    obtain ⟨line, replaced, passes⟩ := preProcess_shown kept done none
    constructor
    · intro _ undisturbed
      obtain ⟨stays, passed⟩ :=
        @replaceMarkers_undisturbed text env.reading (upperAt lines before.length) _ chars undisturbed
      obtain rfl := Except.ok.inj (stays.symm.trans replaced)
      exact ⟨_, passes passed, fun bc origin assembly number => emitsText_stringLine bc origin number assembly text⟩
    · intro labels
      obtain ⟨passed, emits⟩ := emitsText_replaced chars labels replaced
      refine ⟨line, passes passed, fun bc origin assembly number => ?_⟩
      rw [and_iff_right rfl]
      exact emits bc origin assembly number

theorem skipping_of_headLines {files : FileSystem} {include_path before earlier : List (List Char)} {line_number : ℕ}
    {state reached : HeadState} {skips : Bool}
    (scanned : headLines files include_path line_number state before = .ok (earlier, reached))
    (value : (headLines files include_path line_number state before).toOption.map (fun done => done.2.skipping) =
      some skips) : reached.skipping = skips := by
  rw [scanned] at value
  exact Option.some.inj value

/-- A text behind a label and a sub-label, and a jump to the sub-label. -/
def looping (text : List Char) : List (List Char) :=
  ["_start:".toList, ".loop:".toList, stringLine text, "jmp <%cb>, <.loop>".toList]

/-- The same lines when the sub-label has its name. -/
def looped (line : List Char) : List (List Char) :=
  ["_start:".toList, "_start_loop:".toList, line, "jmp <%cb>, <_start_loop>".toList]

/-- A section where the directive itself is a sub-label. -/
def ignored : List (List Char) := ["igni:".toList, ".string:".toList, stringLine "A".toList]

def twoLabels (first second : List Char) : Tables :=
  { noTables with defined_line_marker := [⟨first, 0, false, false, []⟩, ⟨second, 0, false, false, []⟩] }

/-- A text with a line feed is emitted, a text with the sub-label in it is not, and `A` is emitted by `igni_string`, since
it is the opcode of `IGNI`. -/
theorem emitsText_exact_loop :
    (∃ line, (looped (stringLine "a\n.end".toList))[2]? = some line ∧
      ∀ bc origin assembly number, EmitsText bc origin assembly (number, line) "a\n.end".toList) ∧
    (∃ line, (looped (stringLine "to _start_loop".toList))[2]? = some line ∧
      ∀ bc origin assembly number, ¬ EmitsText bc origin assembly (number, line) "to .loop".toList) ∧
    ∀ bc origin assembly number, EmitsText bc origin assembly (number, "igni_string < \"A\" >".toList) "A".toList := by
  have chars {text : List Char} (printable : ∀ c ∈ text, c = '\n' ∨ 32 ≤ c.toNat ∧ c.toNat < 127) :
      ∀ c ∈ text, IsText c := by
    intro c member
    exact (printable c member).imp_right fun inside => .inr (.inr inside)
  refine ⟨?_, ?_, fun bc origin assembly number => ?_⟩
  · obtain ⟨_, _, scanned, exactly, -⟩ := @emitsText_exact (fun _ => none) [] bareEnvironment 1
      ["_start:".toList, ".loop:".toList] ["jmp <%cb>, <.loop>".toList] (looping "a\n.end".toList)
      (looped (stringLine "a\n.end".toList)) "a\n.end".toList .empty .empty [] [] [] noTables
      (twoLabels "_start".toList "_start_loop".toList) (chars (by decide)) rfl rfl rfl
    exact exactly (skipping_of_headLines scanned rfl) ⟨by decide, by decide⟩
  · obtain ⟨_, _, scanned, -, exactly⟩ := @emitsText_exact (fun _ => none) [] bareEnvironment 1
      ["_start:".toList, ".loop:".toList] ["jmp <%cb>, <.loop>".toList] (looping "to .loop".toList)
      (looped (stringLine "to _start_loop".toList)) "to .loop".toList .empty .empty [] [] [] noTables
      (twoLabels "_start".toList "_start_loop".toList) (chars (by decide)) rfl rfl rfl
    obtain ⟨line, place, emits⟩ := exactly ⟨by decide, by decide⟩
    refine ⟨line, place, fun bc origin assembly number emitted => ?_⟩
    obtain ⟨-, undisturbed | disguised⟩ := (emits bc origin assembly number).mp emitted
    · exact undisturbed.words ".loop".toList (by decide) (by decide)
    · exact absurd disguised.1 (by decide)
  · obtain ⟨_, _, scanned, -, exactly⟩ := @emitsText_exact (fun _ => none) [] bareEnvironment 1
      ["igni:".toList, ".string:".toList] [] ignored
      ["igni:".toList, "igni_string:".toList, "igni_string < \"A\" >".toList] "A".toList .empty .empty [] [] [] noTables
      (twoLabels "igni".toList "igni_string".toList) (chars (by decide)) rfl rfl rfl
    obtain ⟨line, place, emits⟩ := exactly ⟨by decide, by decide⟩
    obtain rfl := Option.some.inj place
    refine (emits bc origin assembly number).mpr ⟨skipping_of_headLines scanned rfl, .inr ?_⟩
    refine ⟨by decide, .igni, 'A', rfl, ?_, rfl, rfl⟩
    decide

/-- A semicolon in the text begins a comment, and the assembler refuses what is left. -/
theorem not_emitsText_semicolon :
    headProcess (fun _ => none) [] [stringLine "a;b".toList] .empty [] = .ok ([".string < \"a".toList], .empty, []) ∧
      (preProcess bareEnvironment 1 [".string < \"a".toList] [] noTables).run =
        some (.ok ([".string < \"a".toList], noTables)) ∧
      (sysdarftAssemble numeralCalculator [".string < \"a".toList] 0 []).toOption = none := by
  refine ⟨rfl, rfl, ?_⟩
  decide

end Sysdarft.Coding
