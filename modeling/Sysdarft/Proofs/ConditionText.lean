import Sysdarft.Model.Debugger
import Sysdarft.Proofs.EncodeTarget

/-! # The text of a condition

The parser treats every separator as optional, so it reads a printed condition back exactly, and it also reads
texts that are no conditions: it refuses a text only for an operand.
-/

namespace Sysdarft.Coding

/-! ## Normal forms of operands -/

/-- A capital letter, or a character that is left alone. -/
theorem toUpper_cases (c : Char) : c.toUpper = c ∧ ¬ ('a'.val ≤ c.val ∧ c.val ≤ 'z'.val) ∨
    'A' ≤ c.toUpper ∧ c.toUpper ≤ 'Z' := by
  by_cases lower : 'a'.val ≤ c.val ∧ c.val ≤ 'z'.val
  · right
    have shifted : c.toUpper.val = c.val + ('A'.val - 'a'.val) := by
      delta Char.toUpper
      rw [dif_pos lower]
    have low : 97 ≤ c.val.toNat := UInt32.le_iff_toNat_le.mp lower.1
    have high : c.val.toNat ≤ 122 := UInt32.le_iff_toNat_le.mp lower.2
    have sum : c.toUpper.val.toNat = c.val.toNat - 32 := by
      rw [shifted, UInt32.toNat_add, show ('A'.val - 'a'.val).toNat = 2 ^ 32 - 32 from rfl]
      omega
    rw [Char.le_def, Char.le_def, UInt32.le_iff_toNat_le, UInt32.le_iff_toNat_le, sum]
    rw [show 'A'.val.toNat = 65 from rfl, show 'Z'.val.toNat = 90 from rfl]
    omega
  · left
    exact ⟨dif_neg lower, lower⟩

theorem toUpper_toUpper (c : Char) : c.toUpper.toUpper = c.toUpper := by
  rcases toUpper_cases c with ⟨same, -⟩ | ⟨-, high⟩
  · rw [same, same]
  · have above : ¬ ('a'.val ≤ c.toUpper.val ∧ c.toUpper.val ≤ 'z'.val) := by
      rintro ⟨low, -⟩
      exact absurd (UInt32.le_trans low (Char.le_def.mp high)) (by decide)
    exact dif_neg above

theorem toUpper_eq_space (c : Char) : c.toUpper = ' ' ↔ c = ' ' := by
  constructor
  · intro space
    rcases toUpper_cases c with ⟨same, -⟩ | ⟨low, -⟩
    · rw [← same, space]
    · exact absurd (space ▸ low) (by decide)
  · rintro rfl
    rfl

theorem normalize_normalize (text : List Char) : normalize (normalize text) = normalize text := by
  rw [normalize, normalize, removeSpace, capitalization, capitalization, removeSpace]
  have kept : ∀ c ∈ (text.filter (· != ' ')).map Char.toUpper, (c != ' ') = true := by
    intro c member
    obtain ⟨d, solid, rfl⟩ := List.mem_map.mp member
    rw [bne_iff_ne, ne_eq, toUpper_eq_space]
    exact bne_iff_ne.mp (List.mem_filter.mp solid).2
  rw [List.filter_eq_self.mpr kept, List.map_map]
  exact List.map_congr_left fun c _ => toUpper_toUpper c

/-- An operand can be brought to its normal form first. -/
theorem encodeTarget_normalize {bc : Calculator} {text : List Char} {result : ParsedTarget × List Byte} :
    encodeTarget bc (normalize text) = .ok result ↔ encodeTarget bc text = .ok result := by
  have same : parse (normalize text) = parse text := by
    have inner := normalize_normalize text
    rw [normalize, normalize] at inner
    rw [parse, parse, normalize, inner]
  rw [encodeTarget, encodeTarget, Effects.except_bind_eq_ok, Effects.except_bind_eq_ok, same]
  refine exists_congr fun parsed => and_congr_right fun _ => ?_
  cases parsed with
  | notAValidType => exact ⟨(by rintro ⟨⟩), (by rintro ⟨⟩)⟩
  | register name => exact Iff.rfl
  | constant width expression => exact Iff.rfl
  | memory ratio width base offset1 offset2 => exact Iff.rfl

end Sysdarft.Coding

namespace Sysdarft.Debugger

open Coding

/-- A condition as it is written. -/
inductive ConditionTree where
  | valEqual (t1 t2 : List Char)
  | and (first second : ConditionTree)
  | or (first second : ConditionTree)
  | not (operand : ConditionTree)

/-- White space or nothing. -/
def Blank (text : List Char) : Prop := ∀ c ∈ text, Numerals.isSpace c = true

instance (text : List Char) : Decidable (Blank text) := Text.decidableForall text

theorem blank_nil : Blank [] := fun _ member => absurd member List.not_mem_nil

/-- `encode_target` accepts an operand text. -/
def Encodable (bc : Calculator) (text : List Char) : Prop := ∃ parsed bytes, encodeTarget bc text = .ok (parsed, bytes)

/-- The bytes of an operand text. -/
def encoding (bc : Calculator) (text : List Char) : List Byte :=
  match encodeTarget bc text with
  | .ok (_, bytes) => bytes
  | .error _ => []

/-- A text without angle brackets. -/
def AngleFree (text : List Char) : Prop := '<' ∉ text ∧ '>' ∉ text

instance (text : List Char) : Decidable (AngleFree text) := inferInstanceAs (Decidable (_ ∧ _))

namespace ConditionTree

/-- The operand texts, from left to right. -/
def operands : ConditionTree → List (List Char)
  | valEqual t1 t2 => [t1, t2]
  | and first second => first.operands ++ second.operands
  | or first second => first.operands ++ second.operands
  | not operand => operand.operands

/-- The parsed condition; the second side of a negation is absent. -/
def condition (bc : Calculator) : ConditionTree → Condition
  | valEqual t1 t2 => .valEqual (encoding bc t1) (encoding bc t2)
  | and first second => .and (first.condition bc) (second.condition bc)
  | or first second => .or (first.condition bc) (second.condition bc)
  | not operand => .not (operand.condition bc) .absent

/-- What a condition says, given the values of the operands. -/
def value (access : List Char → Word) : ConditionTree → Bool
  | valEqual t1 t2 => access t1 == access t2
  | and first second => first.value access && second.value access
  | or first second => first.value access || second.value access
  | not operand => !operand.value access

/-- The printed forms: white space may stand before keywords, after commas and before the last parenthesis of
`and`, `or` and `not`. -/
inductive Prints : ConditionTree → List Char → Prop
  | valEqual {before after t1 t2 : List Char} (blank : Blank before) (gap : Blank after) :
      Prints (valEqual t1 t2)
      (before ++ ("valequal(".toList ++ ('<' :: (t1 ++ ">,".toList ++ after ++ '<' :: (t2 ++ ">)".toList)))))
  | and {before after last text1 text2 : List Char} {first second : ConditionTree} (blank : Blank before) (gap : Blank after)
      (close : Blank last) (print1 : Prints first text1) (print2 : Prints second text2) :
      Prints (and first second) (before ++ ("and(".toList ++ (text1 ++ ',' :: (after ++ text2 ++ (last ++ [')'])))))
  | or {before after last text1 text2 : List Char} {first second : ConditionTree} (blank : Blank before) (gap : Blank after)
      (close : Blank last) (print1 : Prints first text1) (print2 : Prints second text2) :
      Prints (or first second) (before ++ ("or(".toList ++ (text1 ++ ',' :: (after ++ text2 ++ (last ++ [')'])))))
  | not {before last text : List Char} {operand : ConditionTree} (blank : Blank before) (close : Blank last)
      (print : Prints operand text) : Prints (not operand) (before ++ ("not(".toList ++ (text ++ (last ++ [')']))))

end ConditionTree

/-! ## Pieces of the parser -/

section Pieces

variable {bc : Calculator} {before text rest : List Char}

theorem skipWhitespace_append (blank : Blank before) (text : List Char) :
    skipWhitespace (before ++ text) = skipWhitespace text := by
  rw [skipWhitespace, skipWhitespace, List.dropWhile_append_of_pos blank]

theorem skipWhitespace_cons {c : Char} (solid : Numerals.isSpace c = false) (text : List Char) :
    skipWhitespace (c :: text) = c :: text := by
  rw [skipWhitespace, List.dropWhile_cons_of_neg (by rw [solid]; exact Bool.false_ne_true)]

theorem matchKeyword_append (keyword : List Char) (blank : Blank before) (text : List Char) :
    matchKeyword keyword (before ++ text) = matchKeyword keyword text := by
  rw [matchKeyword, matchKeyword, skipWhitespace_append blank]

/-- `parseLogical`, given how the nested expressions are parsed. -/
def parseBoth (parse : List Char → Except CodingError (Condition × List Char)) (node : Condition → Condition → Condition)
    (input : List Char) : Except CodingError (Condition × List Char) := do
  let (ComplexTgExp1, rest) ← parse input
  let (ComplexTgExp2, rest) ← parse (consume ',' (skipWhitespace rest))
  return (node ComplexTgExp1 ComplexTgExp2, consume ')' (skipWhitespace rest))

/-- The node and the rest of the text after the keyword of a logical expression. -/
def matchLogical (input : List Char) : Option ((Condition → Condition → Condition) × List Char) :=
  match matchKeyword "and(".toList input with
  | some rest => some (.and, rest)
  | none =>
    match matchKeyword "or(".toList input with
    | some rest => some (.or, rest)
    | none =>
      match matchKeyword "not(".toList input with
      | some rest => some (.not, rest)
      | none => none

theorem parseExpression_succ (fuel : ℕ) (input : List Char) :
    parseExpression bc (fuel + 1) input =
      match matchKeyword "valequal(".toList input with
      | some rest => parseValEqual bc rest
      | none =>
        match matchLogical input with
        | some (node, rest) => parseBoth (parseExpression bc fuel) node rest
        | none => .ok (.absent, skipWhitespace input) := by
  rw [parseExpression, matchLogical]
  cases matchKeyword "valequal(".toList input with
  | some rest => rfl
  | none =>
    cases matchKeyword "and(".toList input with
    | some rest => rfl
    | none =>
      cases matchKeyword "or(".toList input with
      | some rest => rfl
      | none =>
        cases matchKeyword "not(".toList input with
        | some rest => rfl
        | none => rfl

theorem parseBoth_ok {parse : List Char → Except CodingError (Condition × List Char)}
    {node : Condition → Condition → Condition}
    {input rest1 rest2 : List Char} {first second : Condition} (parsed1 : parse input = .ok (first, rest1))
    (parsed2 : parse (consume ',' (skipWhitespace rest1)) = .ok (second, rest2)) :
    parseBoth parse node input = .ok (node first second, consume ')' (skipWhitespace rest2)) := by
  rw [parseBoth, parsed1, Effects.except_ok_bind]
  dsimp only
  rw [parsed2, Effects.except_ok_bind]
  rfl

theorem encodable_normalize {text : List Char} : Encodable bc (normalize text) ↔ Encodable bc text :=
  exists_congr fun _ => exists_congr fun _ => encodeTarget_normalize

theorem Encodable.encodes {text : List Char} (accepted : Encodable bc text) :
    ∃ parsed, encodeTarget bc (normalize text) = .ok (parsed, encoding bc text) := by
  obtain ⟨parsed, bytes, encoded⟩ := accepted
  refine ⟨parsed, encodeTarget_normalize.mpr ?_⟩
  rw [encoding, encoded]

theorem parseValEqual_ok {input rest1 rest2 o1 o2 : List Char} (taken1 : parseUntilCommaOrParen input = (o1, rest1))
    (taken2 : parseUntilParen (consume ',' rest1) = (o2, rest2)) (accepted1 : Encodable bc o1)
    (accepted2 : Encodable bc o2) :
    parseValEqual bc input = .ok (.valEqual (encoding bc o1) (encoding bc o2), consume ')' rest2) := by
  obtain ⟨parsed1, encoded1⟩ := accepted1.encodes
  obtain ⟨parsed2, encoded2⟩ := accepted2.encodes
  rw [Coding.normalize] at encoded1 encoded2
  rw [parseValEqual, taken1]
  dsimp only
  rw [taken2]
  dsimp only
  rw [encoded1, Effects.except_ok_bind]
  dsimp only
  rw [encoded2, Effects.except_ok_bind]
  rfl

/-- Inside angle brackets no delimiter ends an operand. -/
theorem takeUntil_inside {delimiters inside : List Char} {c : Char} (plain : AngleFree inside) (close : '>' ∉ delimiters)
    (stops : c ∈ delimiters) (solid : c ≠ '<' ∧ c ≠ '>') (rest : List Char) :
    takeUntil delimiters 1 (inside ++ '>' :: c :: rest) = (inside ++ ['>'], c :: rest) := by
  induction inside with
  | nil => simp [takeUntil, close, stops, solid]
  | cons d inside ih =>
    obtain ⟨left, right⟩ := plain
    rw [List.mem_cons, not_or] at left right
    rw [List.cons_append, takeUntil, if_neg (Ne.symm left.1), if_neg (Ne.symm right.1)]
    dsimp only
    rw [if_neg fun ⟨outside, _⟩ => absurd outside one_ne_zero, ih ⟨left.2, right.2⟩]
    rfl

theorem processTgExp_brackets {inside : List Char} (plain : '>' ∉ inside) :
    processTgExp ('<' :: (inside ++ ['>'])) = inside := by
  rw [processTgExp, List.getLast?_concat, List.dropLast_concat, if_pos ⟨rfl, plain⟩]

theorem takeUntil_brackets {delimiters inside : List Char} {c : Char} (plain : AngleFree inside) (close : '>' ∉ delimiters)
    (stops : c ∈ delimiters) (solid : c ≠ '<' ∧ c ≠ '>') (blank : Blank before) (rest : List Char) :
    takeUntil delimiters 0 (skipWhitespace (before ++ '<' :: (inside ++ '>' :: c :: rest))) =
      ('<' :: (inside ++ ['>']), c :: rest) := by
  rw [skipWhitespace_append blank, skipWhitespace_cons (by decide), takeUntil, if_pos rfl]
  dsimp only
  rw [if_neg fun ⟨outside, _⟩ => absurd outside one_ne_zero, zero_add, takeUntil_inside plain close stops solid]

theorem parseValEqual_printed {t1 t2 after : List Char} (accepted1 : Encodable bc t1) (accepted2 : Encodable bc t2)
    (plain1 : AngleFree t1) (plain2 : AngleFree t2) (gap : Blank after) (rest : List Char) :
    parseValEqual bc ('<' :: (t1 ++ ">,".toList ++ after ++ '<' :: (t2 ++ ">)".toList)) ++ rest) =
      .ok (.valEqual (encoding bc t1) (encoding bc t2), rest) := by
  have shape : '<' :: (t1 ++ ">,".toList ++ after ++ '<' :: (t2 ++ ">)".toList)) ++ rest =
      [] ++ '<' :: (t1 ++ '>' :: ',' :: (after ++ '<' :: (t2 ++ '>' :: ')' :: rest))) := by
    simp only [List.cons_append, List.append_assoc, List.nil_append]
    rfl
  have taken1 : parseUntilCommaOrParen ([] ++ '<' :: (t1 ++ '>' :: ',' :: (after ++ '<' :: (t2 ++ '>' :: ')' :: rest)))) =
      (t1, ',' :: (after ++ '<' :: (t2 ++ '>' :: ')' :: rest))) := by
    rw [parseUntilCommaOrParen,
      takeUntil_brackets plain1 (by decide) (by decide) (by decide) (fun _ member => absurd member List.not_mem_nil)]
    dsimp only
    rw [processTgExp_brackets plain1.2]
  have taken2 : parseUntilParen (consume ',' (',' :: (after ++ '<' :: (t2 ++ '>' :: ')' :: rest)))) = (t2, ')' :: rest) := by
    rw [consume, List.head?_cons, if_pos rfl, List.tail_cons, parseUntilParen,
      takeUntil_brackets plain2 (by decide) (by decide) (by decide) gap]
    dsimp only
    rw [processTgExp_brackets plain2.2]
  rw [shape, parseValEqual_ok taken1 taken2 accepted1 accepted2]
  rfl

theorem consume_cons (c : Char) (text : List Char) : consume c (c :: text) = text := by
  rw [consume, List.head?_cons, if_pos rfl, List.tail_cons]

theorem consume_other {c d : Char} (other : d ≠ c) (text : List Char) : consume c (d :: text) = d :: text := by
  rw [consume, List.head?_cons, if_neg fun same => other (Option.some.inj same)]

theorem matchLogical_append (blank : Blank before) (text : List Char) :
    matchLogical (before ++ text) = matchLogical text := by
  simp only [matchLogical, matchKeyword_append _ blank]

theorem parseExpression_blank (blank : Blank before) (fuel : ℕ) (text : List Char) :
    parseExpression bc (fuel + 1) (before ++ text) = parseExpression bc (fuel + 1) text := by
  rw [parseExpression_succ, parseExpression_succ, matchKeyword_append _ blank, matchLogical_append blank,
    skipWhitespace_append blank]

theorem parseExpression_logical {fuel : ℕ} {input : List Char} {node : Condition → Condition → Condition}
    (other : matchKeyword "valequal(".toList input = none) (keyword : matchLogical input = some (node, rest)) :
    parseExpression bc (fuel + 1) input = parseBoth (parseExpression bc fuel) node rest := by
  rw [parseExpression_succ, other]
  dsimp only
  rw [keyword]

/-- In front of a closing parenthesis there is no condition. -/
theorem parseExpression_close (fuel : ℕ) (text : List Char) :
    parseExpression bc fuel (')' :: text) = .ok (.absent, ')' :: text) := by
  cases fuel with
  | zero => rfl
  | succ fuel => rfl

/-- Two nested expressions with a comma between them. -/
theorem parseBoth_printed {parse : List Char → Except CodingError (Condition × List Char)}
    {node : Condition → Condition → Condition} {first second : Condition} {text1 text2 after last : List Char}
    (close : Blank last) (rest : List Char) (parsed1 : ∀ rest, parse (text1 ++ rest) = .ok (first, rest))
    (parsed2 : ∀ rest, parse (after ++ (text2 ++ rest)) = .ok (second, rest)) :
    parseBoth parse node (text1 ++ ',' :: (after ++ text2 ++ (last ++ [')'])) ++ rest) = .ok (node first second, rest) := by
  have shape : text1 ++ ',' :: (after ++ text2 ++ (last ++ [')'])) ++ rest =
      text1 ++ ',' :: (after ++ (text2 ++ (last ++ ')' :: rest))) := by
    simp only [List.cons_append, List.append_assoc, List.nil_append]
  have next : consume ',' (skipWhitespace (',' :: (after ++ (text2 ++ (last ++ ')' :: rest))))) =
      after ++ (text2 ++ (last ++ ')' :: rest)) := by
    rw [skipWhitespace_cons (by decide), consume_cons]
  rw [shape, parseBoth_ok (parsed1 _) (by rw [next]; exact parsed2 _), skipWhitespace_append close,
    skipWhitespace_cons (by decide), consume_cons]

/-- One nested expression; where the second would be is the closing parenthesis. -/
theorem parseBoth_single {fuel : ℕ} {node : Condition → Condition → Condition} {operand : Condition} {text last : List Char}
    (close : Blank last) (rest : List Char) (parsed : ∀ rest, parseExpression bc fuel (text ++ rest) = .ok (operand, rest)) :
    parseBoth (parseExpression bc fuel) node (text ++ (last ++ [')']) ++ rest) = .ok (node operand .absent, rest) := by
  have shape : text ++ (last ++ [')']) ++ rest = text ++ (last ++ ')' :: rest) := by
    simp only [List.cons_append, List.append_assoc, List.nil_append]
  have next : consume ',' (skipWhitespace (last ++ ')' :: rest)) = ')' :: rest := by
    rw [skipWhitespace_append close, skipWhitespace_cons (by decide), consume_other (by decide)]
  rw [shape, parseBoth_ok (parsed _) (by rw [next]; exact parseExpression_close fuel rest), skipWhitespace_cons (by decide),
    consume_cons]

end Pieces

/-! ## Printed conditions -/

section Printed

variable {bc : Calculator} {tree : ConditionTree} {text : List Char}

theorem parseExpression_gap {fuel : ℕ} {condition : Condition} {after : List Char} (positive : 0 < fuel) (gap : Blank after)
    (parsed : ∀ rest, parseExpression bc fuel (text ++ rest) = .ok (condition, rest)) (rest : List Char) :
    parseExpression bc fuel (after ++ (text ++ rest)) = .ok (condition, rest) := by
  obtain ⟨fuel, rfl⟩ := Nat.exists_eq_add_one_of_ne_zero positive.ne'
  rw [parseExpression_blank gap, parsed]

/-- A printed condition is read back, whatever follows it. -/
theorem parseExpression_prints (prints : tree.Prints text) (accepted : ∀ t ∈ tree.operands, Encodable bc t)
    (plain : ∀ t ∈ tree.operands, AngleFree t) {fuel : ℕ} (enough : text.length < fuel) (rest : List Char) :
    parseExpression bc fuel (text ++ rest) = .ok (tree.condition bc, rest) := by
  induction prints generalizing fuel rest with
  | @valEqual before after t1 t2 blank gap =>
    obtain ⟨fuel, rfl⟩ := Nat.exists_eq_add_one_of_ne_zero (Nat.ne_zero_of_lt enough)
    rw [List.append_assoc, parseExpression_blank blank, parseExpression_succ]
    change parseValEqual bc _ = _
    exact parseValEqual_printed (accepted t1 (by simp [ConditionTree.operands]))
      (accepted t2 (by simp [ConditionTree.operands]))
      (plain t1 (by simp [ConditionTree.operands])) (plain t2 (by simp [ConditionTree.operands])) gap rest
  | @and before after last text1 text2 first second blank gap close print1 print2 ih1 ih2 =>
    obtain ⟨fuel, rfl⟩ := Nat.exists_eq_add_one_of_ne_zero (Nat.ne_zero_of_lt enough)
    simp only [ConditionTree.operands, List.mem_append, or_imp, forall_and] at accepted plain
    simp only [List.length_append, List.length_cons, show "and(".toList.length = 4 from rfl] at enough
    have read2 : ∀ rest, parseExpression bc fuel (text2 ++ rest) = .ok (second.condition bc, rest) := fun rest =>
      ih2 accepted.2 plain.2 (by omega) rest
    have parsed2 := parseExpression_gap (by omega) gap read2
    rw [List.append_assoc, parseExpression_blank blank, List.append_assoc, parseExpression_logical rfl rfl]
    exact parseBoth_printed close rest (fun rest => ih1 accepted.1 plain.1 (by omega) rest) parsed2
  | @or before after last text1 text2 first second blank gap close print1 print2 ih1 ih2 =>
    obtain ⟨fuel, rfl⟩ := Nat.exists_eq_add_one_of_ne_zero (Nat.ne_zero_of_lt enough)
    simp only [ConditionTree.operands, List.mem_append, or_imp, forall_and] at accepted plain
    simp only [List.length_append, List.length_cons, show "or(".toList.length = 3 from rfl] at enough
    have read2 : ∀ rest, parseExpression bc fuel (text2 ++ rest) = .ok (second.condition bc, rest) := fun rest =>
      ih2 accepted.2 plain.2 (by omega) rest
    have parsed2 := parseExpression_gap (by omega) gap read2
    rw [List.append_assoc, parseExpression_blank blank, List.append_assoc, parseExpression_logical rfl rfl]
    exact parseBoth_printed close rest (fun rest => ih1 accepted.1 plain.1 (by omega) rest) parsed2
  | @not before last text operand blank close print ih =>
    obtain ⟨fuel, rfl⟩ := Nat.exists_eq_add_one_of_ne_zero (Nat.ne_zero_of_lt enough)
    simp only [List.length_append, List.length_cons, show "not(".toList.length = 4 from rfl] at enough
    rw [List.append_assoc, parseExpression_blank blank, List.append_assoc, parseExpression_logical rfl rfl]
    exact parseBoth_single close rest fun rest => ih accepted plain (by omega) rest

/-- A tree is evaluated as it reads. -/
theorem checkOneLevelOfCondition_condition {machine : Machine} {access : List Char → Word}
    (readable : ∀ t ∈ tree.operands, absoluteTargetAccess machine (encoding bc t) = .ok (access t)) :
    checkOneLevelOfCondition machine (tree.condition bc) = .ok (tree.value access) := by
  induction tree with
  | valEqual t1 t2 =>
    simp only [ConditionTree.operands, List.forall_mem_cons] at readable
    rw [ConditionTree.condition, checkOneLevelOfCondition, readable.1, readable.2.1]
    rfl
  | and first second ih1 ih2 =>
    simp only [ConditionTree.operands, List.mem_append, or_imp, forall_and] at readable
    rw [ConditionTree.condition, checkOneLevelOfCondition, ih1 readable.1, ih2 readable.2]
    rfl
  | or first second ih1 ih2 =>
    simp only [ConditionTree.operands, List.mem_append, or_imp, forall_and] at readable
    rw [ConditionTree.condition, checkOneLevelOfCondition, ih1 readable.1, ih2 readable.2]
    rfl
  | not operand ih =>
    rw [ConditionTree.condition, checkOneLevelOfCondition, ih readable]
    rfl

/-- Printed conditions are read back, the whole text is consumed, and they are evaluated as they read. -/
theorem conditions_read_back (prints : tree.Prints text) (accepted : ∀ t ∈ tree.operands, Encodable bc t)
    (plain : ∀ t ∈ tree.operands, AngleFree t) :
    (∀ fuel, text.length < fuel → parseExpression bc fuel text = .ok (tree.condition bc, [])) ∧
      ∀ machine access, (∀ t ∈ tree.operands, absoluteTargetAccess machine (encoding bc t) = .ok (access t)) →
        checkOneLevelOfCondition machine (tree.condition bc) = .ok (tree.value access) := by
  refine ⟨fun fuel enough => ?_, fun machine access readable => checkOneLevelOfCondition_condition readable⟩
  have read := parseExpression_prints prints accepted plain enough []
  rwa [List.append_nil] at read

/-- A negated comparison of two registers, on a machine at power-on. -/
theorem conditions_read_back_registers :
    parseExpression numeralCalculator 100 " not(valequal(<%FER0>, <%FER1>)\n)".toList =
        .ok (.not (.valEqual [0x01, 0x64, 0x00] [0x01, 0x64, 0x01]) .absent, []) ∧
      checkOneLevelOfCondition Machine.powerOn
      (.not (.valEqual [0x01, 0x64, 0x00] [0x01, 0x64, 0x01]) .absent) = .ok false := by
  have prints : (ConditionTree.not (.valEqual "%FER0".toList "%FER1".toList)).Prints
      " not(valequal(<%FER0>, <%FER1>)\n)".toList :=
    @ConditionTree.Prints.not [' '] ['\n'] _ _ (by decide) (by decide)
      (@ConditionTree.Prints.valEqual [] [' '] "%FER0".toList "%FER1".toList (by decide) (by decide))
  have accepted : ∀ t ∈ (ConditionTree.not (.valEqual "%FER0".toList "%FER1".toList)).operands,
    Encodable numeralCalculator t :=
    List.forall_mem_cons.mpr ⟨⟨_, _, rfl⟩, List.forall_mem_singleton.mpr ⟨_, _, rfl⟩⟩
  have plain : ∀ t ∈ (ConditionTree.not (.valEqual "%FER0".toList "%FER1".toList)).operands, AngleFree t :=
    List.forall_mem_cons.mpr ⟨by decide, List.forall_mem_singleton.mpr (by decide)⟩
  have readable : ∀ t ∈ (ConditionTree.not (.valEqual "%FER0".toList "%FER1".toList)).operands,
      absoluteTargetAccess Machine.powerOn (encoding numeralCalculator t) = .ok 0 :=
    List.forall_mem_cons.mpr ⟨rfl, List.forall_mem_singleton.mpr rfl⟩
  obtain ⟨read, evaluated⟩ := conditions_read_back prints accepted plain
  exact ⟨read 100 (by decide), evaluated Machine.powerOn (fun _ => 0) readable⟩

end Printed

/-! ## What is refused -/

/-! ### The texts the parser has no objection to -/

/-- How many angle brackets are open behind a text. -/
def bracketDepth (text : List Char) : ℤ := text.count '<' - text.count '>'

/-- What is taken from a place inside `depth` angle brackets: no delimiter in it stands outside the brackets, and the
first one that does comes next, if there is one. -/
structure Extent (delimiters : List Char) (depth : ℤ) (taken left : List Char) : Prop where
  inside : ∀ before c after, taken = before ++ c :: after → c ∈ delimiters → depth + bracketDepth before ≠ 0
  ends : ∀ c ∈ left.head?, c ∈ delimiters ∧ depth + bracketDepth taken = 0

/-- There is no white space in front. -/
def Solid (text : List Char) : Prop := ∀ c ∈ text.head?, Numerals.isSpace c = false

/-- An operand, in angle brackets or without them. -/
def OperandText (bc : Calculator) (exp : List Char) : Prop :=
  (∃ inside, exp = '<' :: (inside ++ ['>']) ∧ '>' ∉ inside ∧ Encodable bc inside) ∨
    (∀ inside, exp = '<' :: (inside ++ ['>']) → '>' ∈ inside) ∧ Encodable bc exp

/-- An operand comes next, and goes on to a delimiter. -/
def TakesOperand (bc : Calculator) (delimiters text rest : List Char) : Prop :=
  ∃ gap exp, Blank gap ∧ text = gap ++ (exp ++ rest) ∧ Solid (exp ++ rest) ∧ Extent delimiters 0 exp rest ∧
    OperandText bc exp

/-- A separator, which may be missing. -/
def Passes (separator : Char) (text rest : List Char) : Prop :=
  text = separator :: rest ∨ text.head? ≠ some separator ∧ rest = text

/-- The keywords with two nested conditions. -/
def logicalKeywords : List (List Char) := ["and(", "or(", "not("].map String.toList

/-- A text that begins with a condition in the loose sense: separators may be missing, white space stands only where it is
skipped, and where there is no keyword the condition is empty. -/
inductive Tolerates (bc : Calculator) : List Char → List Char → Prop
  | absent {before rest : List Char} (blank : Blank before) (solid : Solid rest)
      (unknown : ∀ keyword ∈ "valequal(".toList :: logicalKeywords, ¬ keyword <+: rest) : Tolerates bc (before ++ rest) rest
  | valEqual {before text rest1 rest2 rest3 rest : List Char} (blank : Blank before)
      (first : TakesOperand bc [',', ')'] text rest1) (comma : Passes ',' rest1 rest2)
      (second : TakesOperand bc [')'] rest2 rest3) (close : Passes ')' rest3 rest) :
      Tolerates bc (before ++ ("valequal(".toList ++ text)) rest
  | logical {before keyword text gap rest1 rest2 last rest3 rest : List Char} (blank : Blank before)
      (known : keyword ∈ logicalKeywords) (first : Tolerates bc text (gap ++ rest1)) (blank1 : Blank gap)
      (solid1 : Solid rest1)
      (comma : Passes ',' rest1 rest2) (second : Tolerates bc rest2 (last ++ rest3)) (blank3 : Blank last)
      (solid3 : Solid rest3)
      (close : Passes ')' rest3 rest) : Tolerates bc (before ++ (keyword ++ text)) rest

/-- The text begins with a condition in the loose sense; what follows is not looked at. -/
def Tolerated (bc : Calculator) (text : List Char) : Prop := ∃ rest, Tolerates bc text rest

section Loose

variable {bc : Calculator} {input taken left rest text : List Char} {condition : Condition}

theorem consume_eq_iff {c : Char} : consume c text = rest ↔ Passes c text rest := by
  rw [Passes]
  cases text with
  | nil => simp [consume, eq_comm]
  | cons d text =>
    by_cases same : d = c
    · subst same
      simp [consume_cons]
    · simp [consume_other same, same, eq_comm (a := rest)]

theorem skipWhitespace_eq_iff : skipWhitespace text = rest ↔ ∃ gap, Blank gap ∧ text = gap ++ rest ∧ Solid rest := by
  constructor
  · rintro rfl
    refine ⟨text.takeWhile Numerals.isSpace, ?_, ?_, ?_⟩
    · exact List.all_eq_true.mp List.all_takeWhile
    · rw [skipWhitespace, List.takeWhile_append_dropWhile]
    · intro c member
      have stops := List.head?_dropWhile_not Numerals.isSpace text
      rw [skipWhitespace, Option.mem_def] at member
      rw [member] at stops
      exact stops
  · rintro ⟨gap, blank, rfl, solid⟩
    rw [skipWhitespace_append blank]
    cases rest with
    | nil => rfl
    | cons c rest => exact skipWhitespace_cons (solid c rfl) rest

theorem bracketDepth_cons (c : Char) (text : List Char) :
    bracketDepth (c :: text) = bracketDepth [c] + bracketDepth text := by
  simp only [bracketDepth, List.count_cons, List.count_nil]
  push_cast
  ring

theorem bracketDepth_singleton (c : Char) (depth : ℤ) :
    (if c = '<' then depth + 1 else if c = '>' then depth - 1 else depth) = depth + bracketDepth [c] := by
  rw [bracketDepth, List.count_singleton, List.count_singleton]
  by_cases opening : c = '<'
  · subst opening
    simp
  · by_cases closing : c = '>'
    · subst closing
      simp
      ring
    · simp [opening, closing]

theorem extent_nil {delimiters : List Char} {depth : ℤ} :
    Extent delimiters depth [] left ↔ ∀ c ∈ left.head?, c ∈ delimiters ∧ depth = 0 := by
  constructor
  · intro extent c member
    obtain ⟨stops, outside⟩ := extent.ends c member
    exact ⟨stops, by simpa [bracketDepth] using outside⟩
  · intro ends
    refine ⟨fun before c after whole => absurd whole (by simp), fun c member => ?_⟩
    obtain ⟨stops, rfl⟩ := ends c member
    exact ⟨stops, rfl⟩

theorem extent_cons {delimiters : List Char} {depth : ℤ} {c : Char} :
    Extent delimiters depth (c :: taken) left ↔
      (c ∈ delimiters → depth ≠ 0) ∧ Extent delimiters (depth + bracketDepth [c]) taken left := by
  constructor
  · intro extent
    refine ⟨fun stops => ?_, fun before d after whole stops => ?_, fun d member => ?_⟩
    · simpa [bracketDepth] using extent.inside [] c taken rfl stops
    · have outside := extent.inside (c :: before) d after (by rw [whole, List.cons_append]) stops
      rwa [bracketDepth_cons, ← add_assoc] at outside
    · obtain ⟨stops, outside⟩ := extent.ends d member
      rw [bracketDepth_cons, ← add_assoc] at outside
      exact ⟨stops, outside⟩
  · rintro ⟨first, extent⟩
    refine ⟨fun before d after whole stops => ?_, fun d member => ?_⟩
    · cases before with
      | nil =>
        obtain ⟨rfl, rfl⟩ := List.cons.inj whole
        simpa [bracketDepth] using first stops
      | cons e before =>
        obtain ⟨rfl, rfl⟩ := List.cons.inj whole
        rw [bracketDepth_cons, ← add_assoc]
        exact extent.inside before d after rfl stops
    · rw [bracketDepth_cons, ← add_assoc]
      exact extent.ends d member

/-- The loop takes what extends to a delimiter. -/
theorem takeUntil_eq_iff {delimiters : List Char} (clean : '<' ∉ delimiters ∧ '>' ∉ delimiters) {depth : ℤ} :
    takeUntil delimiters depth input = (taken, left) ↔ input = taken ++ left ∧ Extent delimiters depth taken left := by
  induction input generalizing depth taken with
  | nil =>
    rw [takeUntil, Prod.mk.injEq]
    constructor
    · rintro ⟨rfl, rfl⟩
      exact ⟨rfl, extent_nil.mpr fun c member => absurd member (by simp)⟩
    · rintro ⟨whole, -⟩
      obtain ⟨rfl, rfl⟩ := List.append_eq_nil_iff.mp whole.symm
      exact ⟨rfl, rfl⟩
  | cons c rest ih =>
    have plain (stops : c ∈ delimiters) : bracketDepth [c] = 0 := by
      have other : c ≠ '<' ∧ c ≠ '>' := ⟨fun same => clean.1 (same ▸ stops), fun same => clean.2 (same ▸ stops)⟩
      simp [bracketDepth, other.1, other.2]
    rw [takeUntil]
    dsimp only
    rw [bracketDepth_singleton]
    split_ifs with stop
    · obtain ⟨outside, stops⟩ := stop
      rw [plain stops, add_zero] at outside
      constructor
      · rintro ⟨⟩
        refine ⟨rfl, extent_nil.mpr fun d member => ?_⟩
        cases member
        exact ⟨stops, outside⟩
      · rintro ⟨whole, extent⟩
        cases taken with
        | nil => rw [whole, List.nil_append]
        | cons d taken =>
          obtain ⟨rfl, -⟩ := List.cons.inj whole
          exact absurd outside ((extent_cons.mp extent).1 stops)
    · constructor
      · intro same
        obtain ⟨rfl, rfl⟩ := Prod.mk.inj same
        obtain ⟨whole, extent⟩ := ih.mp (Prod.mk.eta (p := takeUntil delimiters (depth + bracketDepth [c]) rest)).symm
        refine ⟨by rw [List.cons_append, ← whole], extent_cons.mpr ⟨fun stops outside => stop ⟨?_, stops⟩, extent⟩⟩
        rw [plain stops, add_zero, outside]
      · rintro ⟨whole, extent⟩
        cases taken with
        | nil =>
          rw [List.nil_append] at whole
          subst whole
          obtain ⟨stops, outside⟩ := extent_nil.mp extent c rfl
          exact absurd ⟨by rw [plain stops, add_zero, outside], stops⟩ stop
        | cons d taken =>
          obtain ⟨rfl, rfl⟩ := List.cons.inj whole
          rw [ih.mpr ⟨rfl, (extent_cons.mp extent).2⟩]

/-- `parseUntilCommaOrParen` and `parseUntilParen`, given the delimiters. -/
def parseUntil (delimiters input : List Char) : List Char × List Char :=
  (processTgExp (takeUntil delimiters 0 (skipWhitespace input)).1, (takeUntil delimiters 0 (skipWhitespace input)).2)

theorem encodable_processTgExp : Encodable bc (processTgExp text) ↔ OperandText bc text := by
  by_cases bracketed : ∃ inside, text = '<' :: (inside ++ ['>']) ∧ '>' ∉ inside
  · obtain ⟨inside, rfl, plain⟩ := bracketed
    rw [processTgExp_brackets plain]
    constructor
    · intro accepted
      exact .inl ⟨inside, rfl, plain, accepted⟩
    · rintro (⟨other, same, -, accepted⟩ | ⟨unbracketed, -⟩)
      · rwa [List.append_cancel_right (List.cons.inj same).2]
      · exact absurd (unbracketed inside rfl) plain
  · have unchanged : processTgExp text = text := by
      cases text with
      | nil => rfl
      | cons c inner =>
        by_cases opening : c = '<'
        · subst opening
          rw [processTgExp, if_neg]
          rintro ⟨last, plain⟩
          refine bracketed ⟨inner.dropLast, ?_, plain⟩
          rw [List.dropLast_append_getLast? _ last]
        · rw [processTgExp]
          rintro inner' ⟨⟩
          exact opening rfl
    rw [unchanged]
    constructor
    · intro accepted
      refine .inr ⟨fun inside same => ?_, accepted⟩
      by_contra plain
      exact bracketed ⟨inside, same, plain⟩
    · rintro (⟨inside, same, plain, -⟩ | ⟨-, accepted⟩)
      · exact absurd ⟨inside, same, plain⟩ bracketed
      · exact accepted

theorem takesOperand_iff {delimiters : List Char} (clean : '<' ∉ delimiters ∧ '>' ∉ delimiters) :
    TakesOperand bc delimiters text rest ↔
      Encodable bc (parseUntil delimiters text).1 ∧ (parseUntil delimiters text).2 = rest := by
  rw [parseUntil, encodable_processTgExp]
  constructor
  · rintro ⟨gap, exp, blank, whole, solid, extent, operand⟩
    rw [skipWhitespace_eq_iff.mpr ⟨gap, blank, whole, solid⟩, (takeUntil_eq_iff clean).mpr ⟨rfl, extent⟩]
    exact ⟨operand, rfl⟩
  · rintro ⟨operand, rfl⟩
    obtain ⟨gap, blank, whole, solid⟩ := skipWhitespace_eq_iff.mp (rfl : skipWhitespace text = _)
    obtain ⟨split, extent⟩ := (takeUntil_eq_iff clean).mp
      (Prod.mk.eta (p := takeUntil delimiters 0 (skipWhitespace text))).symm
    rw [split] at whole solid
    exact ⟨gap, _, blank, whole, solid, extent, operand⟩

theorem parseValEqual_ok_iff : parseValEqual bc input = .ok (condition, rest) ↔
    Encodable bc (parseUntilCommaOrParen input).1 ∧
      Encodable bc (parseUntilParen (consume ',' (parseUntilCommaOrParen input).2)).1 ∧
      condition = .valEqual (encoding bc (parseUntilCommaOrParen input).1)
        (encoding bc (parseUntilParen (consume ',' (parseUntilCommaOrParen input).2)).1) ∧
      rest = consume ')' (parseUntilParen (consume ',' (parseUntilCommaOrParen input).2)).2 := by
  constructor
  · intro parsed
    have steps := parsed
    rw [parseValEqual] at steps
    obtain ⟨⟨_, _⟩, encoded1, steps⟩ := Effects.except_bind_eq_ok.mp steps
    obtain ⟨⟨_, _⟩, encoded2, -⟩ := Effects.except_bind_eq_ok.mp steps
    have accepted1 := encodable_normalize.mp ⟨_, _, encoded1⟩
    have accepted2 := encodable_normalize.mp ⟨_, _, encoded2⟩
    rw [parseValEqual_ok (Prod.mk.eta).symm (Prod.mk.eta).symm accepted1 accepted2] at parsed
    cases parsed
    exact ⟨accepted1, accepted2, rfl, rfl⟩
  · rintro ⟨accepted1, accepted2, rfl, rfl⟩
    exact parseValEqual_ok (Prod.mk.eta).symm (Prod.mk.eta).symm accepted1 accepted2

theorem parseBoth_eq_ok {parse : List Char → Except CodingError (Condition × List Char)}
    {node : Condition → Condition → Condition} : parseBoth parse node input = .ok (condition, rest) ↔
      ∃ first rest1 second rest2, parse input = .ok (first, rest1) ∧
        parse (consume ',' (skipWhitespace rest1)) = .ok (second, rest2) ∧ condition = node first second ∧
        rest = consume ')' (skipWhitespace rest2) := by
  constructor
  · intro parsed
    rw [parseBoth] at parsed
    obtain ⟨⟨first, rest1⟩, parsed1, parsed⟩ := Effects.except_bind_eq_ok.mp parsed
    obtain ⟨⟨second, rest2⟩, parsed2, parsed⟩ := Effects.except_bind_eq_ok.mp parsed
    cases parsed
    exact ⟨first, rest1, second, rest2, parsed1, parsed2, rfl, rfl⟩
  · rintro ⟨first, rest1, second, rest2, parsed1, parsed2, rfl, rfl⟩
    exact parseBoth_ok parsed1 parsed2

end Loose

/-! ### The parser accepts these texts -/

section Accepts

variable {bc : Calculator} {fuel fuel' : ℕ} {input rest text before keyword : List Char} {condition : Condition}

theorem matchKeyword_eq_some (found : matchKeyword keyword input = some text) :
    ∃ before, Blank before ∧ input = before ++ (keyword ++ text) := by
  rw [matchKeyword] at found
  split_ifs at found with starts
  obtain ⟨tail, whole⟩ := List.isPrefixOf_iff_prefix.mp starts
  rw [← whole, List.drop_left] at found
  cases found
  obtain ⟨gap, blank, split, -⟩ := skipWhitespace_eq_iff.mp whole.symm
  exact ⟨gap, blank, split⟩

theorem matchKeyword_eq_none_iff : matchKeyword keyword input = none ↔ ¬ keyword <+: skipWhitespace input := by
  rw [matchKeyword, ← List.isPrefixOf_iff_prefix]
  split_ifs with starts <;> simp [starts]

theorem matchLogical_eq_some {node : Condition → Condition → Condition} (found : matchLogical input = some (node, text)) :
    ∃ keyword ∈ logicalKeywords, matchKeyword keyword input = some text := by
  rw [matchLogical] at found
  cases both : matchKeyword "and(".toList input with
  | some left =>
    rw [both] at found
    cases found
    exact ⟨_, by decide, both⟩
  | none =>
    rw [both] at found
    cases either : matchKeyword "or(".toList input with
    | some left =>
      rw [either] at found
      cases found
      exact ⟨_, by decide, either⟩
    | none =>
      rw [either] at found
      cases negated : matchKeyword "not(".toList input with
      | some left =>
        rw [negated] at found
        cases found
        exact ⟨_, by decide, negated⟩
      | none =>
        rw [negated] at found
        cases found

theorem matchLogical_eq_none_iff :
    matchLogical input = none ↔ ∀ keyword ∈ logicalKeywords, matchKeyword keyword input = none := by
  rw [logicalKeywords]
  simp only [List.map_cons, List.map_nil, List.forall_mem_cons, List.not_mem_nil, IsEmpty.forall_iff, implies_true, and_true]
  rw [matchLogical]
  cases matchKeyword "and(".toList input <;> cases matchKeyword "or(".toList input <;>
    cases matchKeyword "not(".toList input <;> simp

theorem Passes.length_le {c : Char} (passes : Passes c text rest) : rest.length ≤ text.length := by
  rcases passes with rfl | ⟨-, rfl⟩
  · exact Nat.le_succ _
  · exact le_refl _

theorem Tolerates.length_le (tolerates : Tolerates bc text rest) : rest.length ≤ text.length := by
  induction tolerates with
  | absent blank solid unknown => simp
  | valEqual blank first comma second close =>
    obtain ⟨gap1, exp1, -, rfl, -⟩ := first
    obtain ⟨gap2, exp2, -, rfl, -⟩ := second
    have comma := comma.length_le
    have close := close.length_le
    simp only [List.length_append] at comma close ⊢
    omega
  | logical blank known first blank1 solid1 comma second blank3 solid3 close ih1 ih2 =>
    have comma := comma.length_le
    have close := close.length_le
    simp only [List.length_append] at ih1 ih2 ⊢
    omega

theorem length_matchLogical_lt {node : Condition → Condition → Condition} (found : matchLogical input = some (node, text)) :
    text.length < input.length := by
  obtain ⟨keyword, known, found⟩ := matchLogical_eq_some found
  obtain ⟨before, -, rfl⟩ := matchKeyword_eq_some found
  have visible : 0 < keyword.length := (by decide : ∀ keyword ∈ logicalKeywords, 0 < keyword.length) keyword known
  rw [List.length_append, List.length_append]
  omega

/-- What the parser has read is a condition in the loose sense. -/
theorem tolerates_of_parseExpression (enough : input.length < fuel)
    (parsed : parseExpression bc fuel input = .ok (condition, rest)) : Tolerates bc input rest := by
  induction fuel generalizing input condition rest with
  | zero => exact absurd enough (Nat.not_lt_zero _)
  | succ fuel ih =>
    rw [parseExpression_succ] at parsed
    cases leaf : matchKeyword "valequal(".toList input with
    | some text =>
      rw [leaf] at parsed
      obtain ⟨before, blank, rfl⟩ := matchKeyword_eq_some leaf
      obtain ⟨accepted1, accepted2, -, left⟩ := parseValEqual_ok_iff.mp parsed
      exact .valEqual blank ((takesOperand_iff (by decide)).mpr ⟨accepted1, rfl⟩) (consume_eq_iff.mp rfl)
        ((takesOperand_iff (by decide)).mpr ⟨accepted2, rfl⟩) (consume_eq_iff.mp left.symm)
    | none =>
      rw [leaf] at parsed
      dsimp only at parsed
      cases logical : matchLogical input with
      | none =>
        rw [logical] at parsed
        cases parsed
        obtain ⟨before, blank, whole, solid⟩ := skipWhitespace_eq_iff.mp (rfl : skipWhitespace input = _)
        have unknown : ∀ keyword ∈ "valequal(".toList :: logicalKeywords, ¬ keyword <+: skipWhitespace input :=
          List.forall_mem_cons.mpr ⟨matchKeyword_eq_none_iff.mp leaf, fun keyword member =>
            matchKeyword_eq_none_iff.mp (matchLogical_eq_none_iff.mp logical keyword member)⟩
        have absent : Tolerates bc _ _ := .absent blank solid unknown
        rwa [← whole] at absent
      | some found =>
        obtain ⟨node, text⟩ := found
        rw [logical] at parsed
        obtain ⟨first, rest1, second, rest2, parsed1, parsed2, -, left⟩ := parseBoth_eq_ok.mp parsed
        obtain ⟨keyword, known, named⟩ := matchLogical_eq_some logical
        obtain ⟨before, blank, rfl⟩ := matchKeyword_eq_some named
        have started := length_matchLogical_lt logical
        have tolerates1 := ih (by omega) parsed1
        obtain ⟨gap, blank1, whole1, solid1⟩ := skipWhitespace_eq_iff.mp (rfl : skipWhitespace rest1 = _)
        have comma : Passes ',' (skipWhitespace rest1) _ := consume_eq_iff.mp rfl
        have shorter : (consume ',' (skipWhitespace rest1)).length < fuel := by
          have shorter1 := tolerates1.length_le
          have shorter2 := comma.length_le
          rw [whole1, List.length_append] at shorter1
          omega
        have tolerates2 := ih shorter parsed2
        obtain ⟨last, blank3, whole3, solid3⟩ := skipWhitespace_eq_iff.mp (rfl : skipWhitespace rest2 = _)
        rw [whole1] at tolerates1
        rw [whole3] at tolerates2
        exact .logical blank known tolerates1 blank1 solid1 comma tolerates2 blank3 solid3 (consume_eq_iff.mp left.symm)

theorem parseExpression_keyword {fuel : ℕ} (known : keyword ∈ logicalKeywords) (text : List Char) :
    ∃ node, parseExpression bc (fuel + 1) (keyword ++ text) = parseBoth (parseExpression bc fuel) node text := by
  simp only [logicalKeywords, List.map_cons, List.map_nil, List.mem_cons, List.not_mem_nil, or_false] at known
  rcases known with rfl | rfl | rfl
  · exact ⟨_, parseExpression_logical rfl rfl⟩
  · exact ⟨_, parseExpression_logical rfl rfl⟩
  · exact ⟨_, parseExpression_logical rfl rfl⟩

/-- A condition in the loose sense is read. -/
theorem Tolerates.parseExpression_ok (tolerates : Tolerates bc input rest) (enough : input.length < fuel) :
    ∃ condition, parseExpression bc fuel input = .ok (condition, rest) := by
  induction tolerates generalizing fuel with
  | @absent before rest blank solid unknown =>
    obtain ⟨fuel, rfl⟩ := Nat.exists_eq_add_one_of_ne_zero (Nat.ne_zero_of_lt enough)
    have skipped : skipWhitespace rest = rest := skipWhitespace_eq_iff.mpr ⟨[], blank_nil, rfl, solid⟩
    obtain ⟨leaf, logical⟩ := List.forall_mem_cons.mp unknown
    have noLeaf : matchKeyword "valequal(".toList rest = none := matchKeyword_eq_none_iff.mpr (by rwa [skipped])
    have noLogical : matchLogical rest = none :=
      matchLogical_eq_none_iff.mpr fun keyword member =>
        matchKeyword_eq_none_iff.mpr (by rw [skipped]; exact logical keyword member)
    refine ⟨.absent, ?_⟩
    rw [parseExpression_blank blank, parseExpression_succ, noLeaf]
    dsimp only
    rw [noLogical, skipped]
  | @valEqual before text rest1 rest2 rest3 rest blank first comma second close =>
    obtain ⟨fuel, rfl⟩ := Nat.exists_eq_add_one_of_ne_zero (Nat.ne_zero_of_lt enough)
    obtain ⟨accepted1, rfl⟩ := (takesOperand_iff (by decide)).mp first
    obtain rfl := consume_eq_iff.mpr comma
    obtain ⟨accepted2, rfl⟩ := (takesOperand_iff (by decide)).mp second
    obtain rfl := consume_eq_iff.mpr close
    have parsed := parseValEqual_ok_iff.mpr ⟨accepted1, accepted2, rfl, rfl⟩
    refine ⟨_, Eq.trans ?_ parsed⟩
    rw [parseExpression_blank blank, parseExpression_succ]
    rfl
  | @logical before keyword text gap rest1 rest2 last rest3 rest blank known first blank1 solid1 comma second blank3
    solid3 close
      ih1 ih2 =>
    obtain ⟨fuel, rfl⟩ := Nat.exists_eq_add_one_of_ne_zero (Nat.ne_zero_of_lt enough)
    have visible : 0 < keyword.length := (by decide : ∀ keyword ∈ logicalKeywords, 0 < keyword.length) keyword known
    have shorter1 := first.length_le
    have shorter2 := comma.length_le
    simp only [List.length_append] at enough shorter1
    obtain ⟨condition1, parsed1⟩ := ih1 (by omega : text.length < fuel)
    obtain ⟨condition2, parsed2⟩ := ih2 (by omega : rest2.length < fuel)
    obtain ⟨node, started⟩ := @parseExpression_keyword bc _ fuel known text
    refine ⟨node condition1 condition2, ?_⟩
    have skipped1 : skipWhitespace (gap ++ rest1) = rest1 := skipWhitespace_eq_iff.mpr ⟨gap, blank1, rfl, solid1⟩
    have skipped3 : skipWhitespace (last ++ rest3) = rest3 := skipWhitespace_eq_iff.mpr ⟨last, blank3, rfl, solid3⟩
    rw [← consume_eq_iff.mpr comma, ← skipped1] at parsed2
    rw [parseExpression_blank blank, started, parseBoth_ok parsed1 parsed2, skipped3, consume_eq_iff.mpr close]

/-- The check accepts the texts that begin with a condition in the loose sense. -/
theorem acceptsCondition_iff : acceptsCondition bc input = true ↔ Tolerated bc input := by
  have parses : (∃ result, parseExpression bc (input.length + 1) input = .ok result) ↔ Tolerated bc input := by
    constructor
    · rintro ⟨⟨condition, rest⟩, parsed⟩
      exact ⟨rest, tolerates_of_parseExpression (Nat.lt_succ_self _) parsed⟩
    · rintro ⟨rest, tolerates⟩
      obtain ⟨condition, parsed⟩ := tolerates.parseExpression_ok (Nat.lt_succ_self _)
      exact ⟨(condition, rest), parsed⟩
  rw [← parses, acceptsCondition]
  cases input with
  | nil => exact iff_of_true rfl ⟨_, rfl⟩
  | cons c input =>
    cases parseExpression bc ((c :: input).length + 1) (c :: input) with
    | ok result => exact iff_of_true rfl ⟨result, rfl⟩
    | error cause => exact iff_of_false Bool.false_ne_true (by rintro ⟨result, ⟨⟩⟩)

end Accepts

/-! ### The fuel is enough -/

section Fuel

variable {bc : Calculator} {fuel fuel' : ℕ} {input rest : List Char}

theorem length_skipWhitespace_le (input : List Char) : (skipWhitespace input).length ≤ input.length :=
  (List.dropWhile_sublist _).length_le

/-- The recursion ends before its fuel does. -/
theorem parseExpression_fuel (enough : input.length < fuel) (enough' : input.length < fuel') :
    parseExpression bc fuel input = parseExpression bc fuel' input := by
  induction fuel generalizing fuel' input with
  | zero => exact absurd enough (Nat.not_lt_zero _)
  | succ fuel ih =>
    obtain ⟨fuel', rfl⟩ := Nat.exists_eq_add_one_of_ne_zero (Nat.ne_zero_of_lt enough')
    rw [parseExpression_succ, parseExpression_succ]
    cases matchKeyword "valequal(".toList input with
    | some rest => rfl
    | none =>
      dsimp only
      cases logical : matchLogical input with
      | none => rfl
      | some found =>
        obtain ⟨node, rest⟩ := found
        have started := length_matchLogical_lt logical
        dsimp only
        rw [parseBoth, parseBoth, ih (by omega : rest.length < fuel) (by omega : rest.length < fuel')]
        cases parsed : parseExpression bc fuel' rest with
        | error cause => rfl
        | ok result =>
          obtain ⟨first, rest1⟩ := result
          have shorter := (tolerates_of_parseExpression (by omega) parsed).length_le
          have comma : Passes ',' (skipWhitespace rest1) _ := consume_eq_iff.mp rfl
          have left := comma.length_le.trans (length_skipWhitespace_le rest1)
          have second : parseExpression bc fuel (consume ',' (skipWhitespace rest1)) =
              parseExpression bc fuel' (consume ',' (skipWhitespace rest1)) := ih (by omega) (by omega)
          rw [Effects.except_ok_bind, Effects.except_ok_bind]
          dsimp only
          rw [second]

end Fuel

/-! ### The grammar -/

/-- A text is made of tokens, with white space anywhere around them. -/
def Spaced : List (List Char) → List Char → Prop
  | [], text => Blank text
  | token :: tokens, text => ∃ gap rest, Blank gap ∧ text = gap ++ (token ++ rest) ∧ Spaced tokens rest

/-- The tokens of the conditions: keywords, parentheses, commas, and operands in angle brackets. -/
inductive ConditionTokens (bc : Calculator) : List (List Char) → Prop
  | valEqual {t1 t2 : List Char} (accepted1 : Encodable bc t1) (accepted2 : Encodable bc t2) :
      ConditionTokens bc ["valequal".toList, ['('], '<' :: (t1 ++ ['>']), [','], '<' :: (t2 ++ ['>']), [')']]
  | and {first second : List (List Char)} (tokens1 : ConditionTokens bc first) (tokens2 : ConditionTokens bc second) :
      ConditionTokens bc ("and".toList :: ['('] :: (first ++ [','] :: (second ++ [[')']])))
  | or {first second : List (List Char)} (tokens1 : ConditionTokens bc first) (tokens2 : ConditionTokens bc second) :
      ConditionTokens bc ("or".toList :: ['('] :: (first ++ [','] :: (second ++ [[')']])))
  | not {operand : List (List Char)} (tokens : ConditionTokens bc operand) :
      ConditionTokens bc ("not".toList :: ['('] :: (operand ++ [[')']]))

/-- The whole text is a condition. -/
def Grammatical (bc : Calculator) (text : List Char) : Prop := ∃ tokens, ConditionTokens bc tokens ∧ Spaced tokens text

/-- The check of a condition: it accepts exactly the grammar, and what is refused is not stored. -/
structure Checked (bc : Calculator) (text : List Char) : Prop where
  accepts : acceptsCondition bc text = true ↔ Grammatical bc text
  unchanged : ¬ Grammatical bc text → ∀ (server : Server) (CB IP : Word),
    (server.serve bc (.setBreakpoint CB IP text)).breakpoint_list = server.breakpoint_list

section Spacing

variable {bc : Calculator} {first second : List (List Char)} {text text1 text2 : List Char}

theorem blank_append (blank1 : Blank text1) (blank2 : Blank text2) : Blank (text1 ++ text2) :=
  List.forall_mem_append.mpr ⟨blank1, blank2⟩

theorem Spaced.blank {gap : List Char} (blank : Blank gap) (spaced : Spaced first text) : Spaced first (gap ++ text) := by
  cases first with
  | nil => exact blank_append blank spaced
  | cons token tokens =>
    obtain ⟨gap', rest, blank', rfl, spaced⟩ := spaced
    exact ⟨gap ++ gap', rest, blank_append blank blank', (List.append_assoc ..).symm, spaced⟩

theorem Spaced.append (spaced1 : Spaced first text1) (spaced2 : Spaced second text2) :
    Spaced (first ++ second) (text1 ++ text2) := by
  induction first generalizing text1 with
  | nil => exact spaced2.blank spaced1
  | cons token tokens ih =>
    obtain ⟨gap, rest, blank, rfl, spaced1⟩ := spaced1
    refine ⟨gap, rest ++ text2, blank, ?_, ih spaced1⟩
    simp only [List.append_assoc]

/-- A token with the white space before it. -/
theorem Spaced.token {gap : List Char} (token : List Char) (blank : Blank gap) : Spaced [token] (gap ++ token) :=
  ⟨gap, [], blank, by rw [List.append_nil], fun _ member => absurd member List.not_mem_nil⟩

theorem spaced_pair {before after last : List Char} (keyword : List Char) (blank : Blank before) (gap : Blank after)
    (close : Blank last) (spaced1 : Spaced first text1) (spaced2 : Spaced second text2) :
    Spaced (keyword :: ['('] :: (first ++ [','] :: (second ++ [[')']])))
      (before ++ (keyword ++ ['('] ++ (text1 ++ ',' :: (after ++ text2 ++ (last ++ [')']))))) := by
  have whole := (Spaced.token keyword blank).append ((Spaced.token ['('] blank_nil).append
    (spaced1.append ((Spaced.token [','] blank_nil).append ((spaced2.blank gap).append (Spaced.token [')'] close)))))
  simp only [List.append_assoc, List.nil_append, List.cons_append] at whole ⊢
  exact whole

/-- What is printed is in the grammar. -/
theorem ConditionTree.Prints.grammatical {tree : ConditionTree} (prints : tree.Prints text)
    (accepted : ∀ t ∈ tree.operands, Encodable bc t) : Grammatical bc text := by
  induction prints with
  | @valEqual before after t1 t2 blank gap =>
    simp only [ConditionTree.operands, List.forall_mem_cons] at accepted
    have whole := (Spaced.token "valequal".toList blank).append ((Spaced.token ['('] blank_nil).append
      ((Spaced.token ('<' :: (t1 ++ ['>'])) blank_nil).append ((Spaced.token [','] blank_nil).append
        ((Spaced.token ('<' :: (t2 ++ ['>'])) gap).append (Spaced.token [')'] blank_nil)))))
    refine ⟨_, .valEqual accepted.1 accepted.2.1, ?_⟩
    rw [show "valequal(".toList = "valequal".toList ++ ['('] from rfl, show ">,".toList = ['>', ','] from rfl,
      show ">)".toList = ['>', ')'] from rfl]
    simp only [List.append_assoc, List.nil_append, List.cons_append] at whole ⊢
    exact whole
  | and blank gap close print1 print2 ih1 ih2 =>
    simp only [ConditionTree.operands, List.mem_append, or_imp, forall_and] at accepted
    obtain ⟨tokens1, condition1, spaced1⟩ := ih1 accepted.1
    obtain ⟨tokens2, condition2, spaced2⟩ := ih2 accepted.2
    exact ⟨_, .and condition1 condition2, spaced_pair "and".toList blank gap close spaced1 spaced2⟩
  | or blank gap close print1 print2 ih1 ih2 =>
    simp only [ConditionTree.operands, List.mem_append, or_imp, forall_and] at accepted
    obtain ⟨tokens1, condition1, spaced1⟩ := ih1 accepted.1
    obtain ⟨tokens2, condition2, spaced2⟩ := ih2 accepted.2
    exact ⟨_, .or condition1 condition2, spaced_pair "or".toList blank gap close spaced1 spaced2⟩
  | @not before last text operand blank close print ih =>
    obtain ⟨tokens, condition, spaced⟩ := ih accepted
    have whole := (Spaced.token "not".toList blank).append ((Spaced.token ['('] blank_nil).append
      (spaced.append (Spaced.token [')'] close)))
    refine ⟨_, .not condition, ?_⟩
    rw [show "not(".toList = "not".toList ++ ['('] from rfl]
    simp only [List.append_assoc, List.nil_append, List.cons_append] at whole ⊢
    exact whole

end Spacing

section Checks

variable {bc : Calculator} {text : List Char}

/-- The word that deletes a breakpoint has no keyword in front. -/
theorem tolerated_delete (delete : capitalization text = "DELETE".toList) : Tolerated bc text := by
  obtain ⟨c, rest, rfl, capital, -⟩ := List.map_eq_cons_iff.mp delete
  have not_starts : ∀ d ∈ [' ', '\t', '\n', '\x0b', '\x0c', '\r', 'v', 'a', 'o', 'n'], c ≠ d := by
    rintro d member rfl
    exact absurd capital
      ((by decide : ∀ d ∈ [' ', '\t', '\n', '\x0b', '\x0c', '\r', 'v', 'a', 'o', 'n'], d.toUpper ≠ 'D') c member)
  simp only [List.forall_mem_cons, List.not_mem_nil, IsEmpty.forall_iff, implies_true, and_true] at not_starts
  obtain ⟨space, tab, line, vertical, feed, carriage, v, a, o, n⟩ := not_starts
  have solid : Numerals.isSpace c = false := by
    simp only [Numerals.isSpace, Bool.or_eq_false_iff, beq_eq_false_iff_ne]
    exact ⟨⟨⟨⟨⟨space, tab⟩, line⟩, vertical⟩, feed⟩, carriage⟩
  refine ⟨c :: rest, .absent blank_nil (fun d member => ?_) ?_⟩
  · cases member
    exact solid
  · simp only [logicalKeywords, List.map_cons, List.map_nil, List.forall_mem_cons, List.not_mem_nil, IsEmpty.forall_iff,
      implies_true, and_true]
    exact ⟨fun front => v (List.cons_prefix_cons.mp front).1.symm, fun front => a (List.cons_prefix_cons.mp front).1.symm,
      fun front => o (List.cons_prefix_cons.mp front).1.symm, fun front => n (List.cons_prefix_cons.mp front).1.symm⟩

/-- A refused text changes nothing. -/
theorem serve_refused (refused : acceptsCondition bc text = false) (server : Server) (CB IP : Word) :
    server.serve bc (.setBreakpoint CB IP text) = server := by
  have other : capitalization text ≠ "DELETE".toList := by
    intro delete
    have accepted : acceptsCondition bc text = true := acceptsCondition_iff.mpr (tolerated_delete delete)
    exact absurd (refused.symm.trans accepted) Bool.false_ne_true
  rw [Server.serve, if_neg other, refused, if_neg Bool.false_ne_true]

theorem checked_of_tolerated (grammatical : Grammatical bc text) (tolerated : Tolerated bc text) : Checked bc text :=
  ⟨iff_of_true (acceptsCondition_iff.mpr tolerated) grammatical, fun ungrammatical => absurd grammatical ungrammatical⟩

/-- The check is right for what is printed. -/
theorem ConditionTree.Prints.checked {tree : ConditionTree} (prints : tree.Prints text)
    (accepted : ∀ t ∈ tree.operands, Encodable bc t) (plain : ∀ t ∈ tree.operands, AngleFree t) : Checked bc text := by
  have read := parseExpression_prints prints accepted plain (Nat.lt_succ_self _) []
  rw [List.append_nil] at read
  exact checked_of_tolerated (prints.grammatical accepted) ⟨[], tolerates_of_parseExpression (Nat.lt_succ_self _) read⟩

/-- The check is right for the texts that are conditions and also begin with one in the loose sense, and for those that are
none and do not begin with one either. -/
theorem conditionChecked_iff (bc : Calculator) (text : List Char) :
    Checked bc text ↔ Grammatical bc text ∧ Tolerated bc text ∨ ¬ Grammatical bc text ∧ ¬ Tolerated bc text := by
  constructor
  · intro checked
    have same := acceptsCondition_iff.symm.trans checked.accepts
    by_cases grammatical : Grammatical bc text
    · exact .inl ⟨grammatical, same.mpr grammatical⟩
    · exact .inr ⟨grammatical, mt same.mp grammatical⟩
  · rintro (⟨grammatical, tolerated⟩ | ⟨ungrammatical, untolerated⟩)
    · exact checked_of_tolerated grammatical tolerated
    · have rejects : acceptsCondition bc text ≠ true := mt acceptsCondition_iff.mp untolerated
      refine ⟨iff_of_false rejects ungrammatical, fun _ server CB IP => ?_⟩
      rw [serve_refused (Bool.eq_false_iff.mpr rejects)]

theorem ConditionTokens.keyword {tokens : List (List Char)} (condition : ConditionTokens bc tokens) :
    ∃ keyword ∈ ["valequal".toList, "and".toList, "or".toList, "not".toList], ∃ more, tokens = keyword :: more := by
  cases condition with
  | valEqual accepted1 accepted2 => exact ⟨"valequal".toList, by decide, _, rfl⟩
  | and tokens1 tokens2 => exact ⟨"and".toList, by decide, _, rfl⟩
  | or tokens1 tokens2 => exact ⟨"or".toList, by decide, _, rfl⟩
  | not tokens => exact ⟨"not".toList, by decide, _, rfl⟩

theorem not_grammatical_unknown (bc : Calculator) : ¬ Grammatical bc "foo".toList := by
  rintro ⟨tokens, condition, spaced⟩
  obtain ⟨keyword, member, more, rfl⟩ := condition.keyword
  obtain ⟨gap, rest, blank, whole, -⟩ := spaced
  cases gap with
  | cons c gap =>
    obtain rfl : c = 'f' := (List.cons.inj whole).1.symm
    exact absurd (blank 'f' List.mem_cons_self) (by decide)
  | nil =>
    have heads : ∀ keyword ∈ ["valequal".toList, "and".toList, "or".toList, "not".toList],
      ¬ keyword <+: "foo".toList := by decide
    exact heads keyword member ⟨rest, whole.symm⟩

/-- A text with an unknown keyword is accepted as a condition. -/
theorem not_checked_unknown : ¬ ∀ (bc : Calculator) (text : List Char), text ≠ [] → capitalization text ≠ "DELETE".toList →
    Checked bc text := by
  intro every
  have checked := every numeralCalculator "foo".toList (by decide) (by decide)
  exact not_grammatical_unknown numeralCalculator (checked.accepts.mp rfl)

end Checks

end Sysdarft.Debugger
