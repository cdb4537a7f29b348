import Mathlib.Tactic

/-! # Backtracking regular expressions

A matcher in the ECMAScript reading: the successes of a pattern at a position are listed in the
order a depth-first engine tries them, so the head of the list is the match the engine reports.
Every success is the unread suffix together with the groups recorded on the way.

`Derives` states which words a pattern accepts, independently of the order of attempts, and
`mem_run` identifies it with membership in the list of successes. Clients characterize a pattern by
rewriting with the `derives_*` lemmas and then only argue about words.
-/

/-- Patterns over characters. `bol` and `eol` are the single-line anchors. -/
inductive Regex where
  | eps
  | sat (accept : Char → Bool)
  | seq (first second : Regex)
  | alt (first second : Regex)
  | star (body : Regex)
  | group (index : ℕ) (body : Regex)
  | bol
  | eol

namespace Regex

/-- Recorded groups, in the order in which they were closed. -/
abbrev Captures := List (ℕ × List Char)

/-- The last text recorded for a group. -/
def Captures.get (captures : Captures) (index : ℕ) : List Char :=
  ((captures.reverse.find? (fun entry => entry.1 == index)).map Prod.snd).getD []

/-- Iterate a matcher greedily. An iteration that reads nothing is refused, which bounds the
number of iterations by the length of the subject. -/
def runStar (body : Bool → List Char → List (List Char × Captures)) :
    ℕ → Bool → List Char → List (List Char × Captures)
  | 0, _, subject => [(subject, [])]
  | fuel + 1, start, subject =>
    ((body start subject).filter fun hit => hit.1.length < subject.length).flatMap (fun hit =>
      (runStar body fuel false hit.1).map fun rest => (rest.1, hit.2 ++ rest.2)) ++ [(subject, [])]

/-- All successes at one position, most preferred first. `start` tells whether the position is
the beginning of the subject. -/
def run : Regex → Bool → List Char → List (List Char × Captures)
  | eps, _, subject => [(subject, [])]
  | sat _, _, [] => []
  | sat accept, _, c :: rest => if accept c then [(rest, [])] else []
  | seq first second, start, subject =>
    (run first start subject).flatMap fun hit =>
      (run second (start && hit.1.length == subject.length) hit.1).map fun rest =>
        (rest.1, hit.2 ++ rest.2)
  | alt first second, start, subject => run first start subject ++ run second start subject
  | star body, start, subject => runStar (run body) subject.length start subject
  | group index body, start, subject =>
    (run body start subject).map fun hit =>
      (hit.1, hit.2 ++ [(index, subject.take (subject.length - hit.1.length))])
  | bol, start, subject => if start then [(subject, [])] else []
  | eol, _, subject => if subject = [] then [(subject, [])] else []

/-- `Derives pattern start word rest captures`: reading `word`, with `rest` still unread, is one
way of matching the pattern. -/
inductive Derives : Regex → Bool → List Char → List Char → Captures → Prop where
  | eps {start rest} : Derives eps start [] rest []
  | sat {accept : Char → Bool} {c : Char} {start rest} (holds : accept c = true) :
      Derives (sat accept) start [c] rest []
  | seq {first second start rest} {word word' : List Char} {captures captures' : Captures}
      (left : Derives first start word (word' ++ rest) captures)
      (right : Derives second (start && word.isEmpty) word' rest captures') :
      Derives (seq first second) start (word ++ word') rest (captures ++ captures')
  | altLeft {first second start word rest captures} (left : Derives first start word rest captures) :
      Derives (alt first second) start word rest captures
  | altRight {first second start word rest captures} (right : Derives second start word rest captures) :
      Derives (alt first second) start word rest captures
  | starNil {body start rest} : Derives (star body) start [] rest []
  | starCons {body start rest} {word word' : List Char} {captures captures' : Captures}
      (head : Derives body start word (word' ++ rest) captures) (progress : word ≠ [])
      (tail : Derives (star body) false word' rest captures') :
      Derives (star body) start (word ++ word') rest (captures ++ captures')
  | group {index body start word rest captures} (inner : Derives body start word rest captures) :
      Derives (group index body) start word rest (captures ++ [(index, word)])
  | bol {rest} : Derives bol true [] rest []
  | eol {start} : Derives eol start [] [] []

private theorem take_length_sub {α : Type*} (word rest : List α) :
    (word ++ rest).take ((word ++ rest).length - rest.length) = word := by
  simp only [List.length_append, Nat.add_sub_cancel, List.take_left]

private theorem length_beq_append {α : Type*} (word rest : List α) :
    (rest.length == (word ++ rest).length) = word.isEmpty := by
  cases word with
  | nil => simp
  | cons head tail => simp; omega

private theorem mem_runStar (body : Regex)
    (exact : ∀ start subject rest captures, (rest, captures) ∈ run body start subject ↔
      ∃ word, subject = word ++ rest ∧ Derives body start word rest captures)
    (fuel : ℕ) (start : Bool) (subject : List Char) (enough : subject.length ≤ fuel)
    (rest : List Char) (captures : Captures) :
    (rest, captures) ∈ runStar (run body) fuel start subject ↔
      ∃ word, subject = word ++ rest ∧ Derives (star body) start word rest captures := by
  induction fuel generalizing start subject rest captures with
  | zero =>
    obtain rfl := List.length_eq_zero_iff.mp (Nat.le_zero.mp enough)
    simp only [runStar, List.mem_singleton, Prod.mk.injEq]
    constructor
    · rintro ⟨rfl, rfl⟩
      exact ⟨[], rfl, .starNil⟩
    · rintro ⟨word, split, derivation⟩
      obtain ⟨rfl, rfl⟩ := List.append_eq_nil_iff.mp split.symm
      refine ⟨rfl, ?_⟩
      generalize same : ([] : List Char) = word at derivation
      cases derivation with
      | starNil => rfl
      | starCons _ progress _ => exact absurd (List.append_eq_nil_iff.mp same.symm).1 progress
  | succ fuel ih =>
    simp only [runStar, List.mem_append, List.mem_flatMap, List.mem_filter, decide_eq_true_eq,
      List.mem_map, Prod.exists, Prod.mk.injEq, List.mem_singleton]
    constructor
    · rintro (⟨middle, left, ⟨hit, shorter⟩, tail, right, more, rfl, rfl⟩ | ⟨rfl, rfl⟩)
      · obtain ⟨word, rfl, derivation⟩ := (exact ..).mp hit
        have bound : middle.length ≤ fuel := by
          simp only [List.length_append] at shorter enough; omega
        obtain ⟨word', rfl, iteration⟩ := (ih false middle bound ..).mp more
        have progress : word ≠ [] := by rintro rfl; simp at shorter
        exact ⟨word ++ word', (List.append_assoc ..).symm, .starCons derivation progress iteration⟩
      · exact ⟨[], rfl, .starNil⟩
    · rintro ⟨word, rfl, derivation⟩
      cases derivation with
      | starNil => exact .inr ⟨rfl, rfl⟩
      | @starCons _ _ _ word word' left right head progress tail =>
        have positive : 0 < word.length := List.length_pos_iff.mpr progress
        have bound : (word' ++ rest).length ≤ fuel := by
          simp only [List.length_append] at enough ⊢; omega
        refine .inl ⟨word' ++ rest, left, ⟨(exact ..).mpr ⟨word, List.append_assoc .., head⟩, ?_⟩,
          rest, right, (ih false _ bound ..).mpr ⟨word', rfl, tail⟩, rfl, rfl⟩
        simp only [List.length_append]
        omega

/-- The successes of the engine are exactly the derivable readings of a prefix of the subject. -/
theorem mem_run (pattern : Regex) (start : Bool) (subject rest : List Char) (captures : Captures) :
    (rest, captures) ∈ run pattern start subject ↔
      ∃ word, subject = word ++ rest ∧ Derives pattern start word rest captures := by
  induction pattern generalizing start subject rest captures with
  | eps =>
    simp only [run, List.mem_singleton, Prod.mk.injEq]
    constructor
    · rintro ⟨rfl, rfl⟩
      exact ⟨[], rfl, .eps⟩
    · rintro ⟨word, rfl, derivation⟩
      cases derivation
      exact ⟨rfl, rfl⟩
  | sat accept =>
    constructor
    · intro member
      cases subject with
      | nil => simp only [run, List.not_mem_nil] at member
      | cons c tail =>
        simp only [run] at member
        split_ifs at member with holds
        · obtain ⟨rfl, rfl⟩ := Prod.mk.inj (List.mem_singleton.mp member)
          exact ⟨[c], rfl, .sat holds⟩
        · simp at member
    · rintro ⟨word, rfl, derivation⟩
      cases derivation with
      | sat holds => simp [run, holds]
  | seq first second ihFirst ihSecond =>
    simp only [run, List.mem_flatMap, List.mem_map, Prod.exists, Prod.mk.injEq]
    constructor
    · rintro ⟨middle, left, hit, tail, right, more, rfl, rfl⟩
      obtain ⟨word, rfl, derivation⟩ := (ihFirst ..).mp hit
      obtain ⟨word', rfl, continuation⟩ := (ihSecond ..).mp more
      rw [length_beq_append] at continuation
      exact ⟨word ++ word', (List.append_assoc ..).symm, .seq derivation continuation⟩
    · rintro ⟨word, rfl, derivation⟩
      cases derivation with
      | @seq _ _ _ _ word word' left right head tail =>
        refine ⟨word' ++ rest, left, (ihFirst ..).mpr ⟨word, List.append_assoc .., head⟩, rest, right,
          (ihSecond ..).mpr ⟨word', rfl, ?_⟩, rfl, rfl⟩
        rwa [List.append_assoc, length_beq_append]
  | alt first second ihFirst ihSecond =>
    simp only [run, List.mem_append, ihFirst, ihSecond]
    constructor
    · rintro (⟨word, split, derivation⟩ | ⟨word, split, derivation⟩)
      · exact ⟨word, split, .altLeft derivation⟩
      · exact ⟨word, split, .altRight derivation⟩
    · rintro ⟨word, split, derivation⟩
      cases derivation with
      | altLeft left => exact .inl ⟨word, split, left⟩
      | altRight right => exact .inr ⟨word, split, right⟩
  | star body ih => exact mem_runStar body ih _ start subject le_rfl rest captures
  | group index body ih =>
    simp only [run, List.mem_map, Prod.exists, Prod.mk.injEq]
    constructor
    · rintro ⟨tail, inner, hit, rfl, rfl⟩
      obtain ⟨word, rfl, derivation⟩ := (ih ..).mp hit
      rw [take_length_sub]
      exact ⟨word, rfl, .group derivation⟩
    · rintro ⟨word, rfl, derivation⟩
      cases derivation with
      | group inner => exact ⟨rest, _, (ih ..).mpr ⟨word, rfl, inner⟩, rfl, by rw [take_length_sub]⟩
  | bol =>
    constructor
    · intro member
      simp only [run] at member
      split_ifs at member with atStart
      · obtain ⟨rfl, rfl⟩ := Prod.mk.inj (List.mem_singleton.mp member)
        subst atStart
        exact ⟨[], rfl, .bol⟩
      · simp at member
    · rintro ⟨word, rfl, derivation⟩
      cases derivation
      simp [run]
  | eol =>
    constructor
    · intro member
      simp only [run] at member
      split_ifs at member with finished
      · obtain ⟨rfl, rfl⟩ := Prod.mk.inj (List.mem_singleton.mp member)
        subst finished
        exact ⟨[], rfl, .eol⟩
      · simp at member
    · rintro ⟨word, rfl, derivation⟩
      cases derivation
      simp [run]

/-! ## Derived patterns -/

/-- One given character. -/
def chr (c : Char) : Regex := sat (· == c)

/-- A literal text. -/
def lit : List Char → Regex
  | [] => eps
  | c :: rest => seq (chr c) (lit rest)

/-- A literal text, letters compared without case. -/
def litNoCase : List Char → Regex
  | [] => eps
  | c :: rest => seq (sat fun d => d.toLower == c.toLower) (litNoCase rest)

/-- At least one iteration. -/
def plus (body : Regex) : Regex := seq body (star body)

/-- A choice among literal texts, tried in order. -/
def oneOf : List (List Char) → Regex
  | [] => sat fun _ => false
  | text :: rest => alt (lit text) (oneOf rest)

section Rules

variable {start : Bool} {word rest : List Char} {captures : Captures}

@[simp] theorem derives_eps : Derives eps start word rest captures ↔ word = [] ∧ captures = [] := by
  constructor
  · rintro ⟨⟩
    exact ⟨rfl, rfl⟩
  · rintro ⟨rfl, rfl⟩
    exact .eps

@[simp] theorem derives_sat {accept : Char → Bool} :
    Derives (sat accept) start word rest captures ↔
      ∃ c, accept c = true ∧ word = [c] ∧ captures = [] := by
  constructor
  · rintro ⟨⟩
    exact ⟨_, ‹_›, rfl, rfl⟩
  · rintro ⟨c, holds, rfl, rfl⟩
    exact .sat holds

@[simp] theorem derives_chr {c : Char} :
    Derives (chr c) start word rest captures ↔ word = [c] ∧ captures = [] := by
  simp [chr]

theorem derives_seq {first second : Regex} :
    Derives (seq first second) start word rest captures ↔
      ∃ left right before after, word = left ++ right ∧ captures = before ++ after ∧
        Derives first start left (right ++ rest) before ∧
        Derives second (start && left.isEmpty) right rest after := by
  constructor
  · rintro ⟨⟩
    exact ⟨_, _, _, _, rfl, rfl, ‹_›, ‹_›⟩
  · rintro ⟨left, right, before, after, rfl, rfl, head, tail⟩
    exact .seq head tail

theorem derives_alt {first second : Regex} :
    Derives (alt first second) start word rest captures ↔
      Derives first start word rest captures ∨ Derives second start word rest captures := by
  constructor
  · rintro ⟨⟩
    · exact .inl ‹_›
    · exact .inr ‹_›
  · rintro (left | right)
    · exact .altLeft left
    · exact .altRight right

theorem derives_group {index : ℕ} {body : Regex} :
    Derives (group index body) start word rest captures ↔
      ∃ inner, captures = inner ++ [(index, word)] ∧ Derives body start word rest inner := by
  constructor
  · rintro ⟨⟩
    exact ⟨_, rfl, ‹_›⟩
  · rintro ⟨inner, rfl, derivation⟩
    exact .group derivation

@[simp] theorem derives_bol :
    Derives bol start word rest captures ↔ start = true ∧ word = [] ∧ captures = [] := by
  constructor
  · rintro ⟨⟩
    exact ⟨rfl, rfl, rfl⟩
  · rintro ⟨rfl, rfl, rfl⟩
    exact .bol

@[simp] theorem derives_eol :
    Derives eol start word rest captures ↔ rest = [] ∧ word = [] ∧ captures = [] := by
  constructor
  · rintro ⟨⟩
    exact ⟨rfl, rfl, rfl⟩
  · rintro ⟨rfl, rfl, rfl⟩
    exact .eol

@[simp] theorem derives_lit {text : List Char} :
    Derives (lit text) start word rest captures ↔ word = text ∧ captures = [] := by
  induction text generalizing start word captures with
  | nil => simp [lit]
  | cons c text ih =>
    simp only [lit, derives_seq, derives_chr, ih]
    constructor
    · rintro ⟨left, right, before, after, rfl, rfl, ⟨rfl, rfl⟩, rfl, rfl⟩
      exact ⟨rfl, rfl⟩
    · rintro ⟨rfl, rfl⟩
      exact ⟨[c], text, [], [], rfl, rfl, ⟨rfl, rfl⟩, rfl, rfl⟩

@[simp] theorem derives_oneOf {texts : List (List Char)} :
    Derives (oneOf texts) start word rest captures ↔ word ∈ texts ∧ captures = [] := by
  induction texts with
  | nil => simp [oneOf]
  | cons text texts ih =>
    simp only [oneOf, derives_alt, derives_lit, ih, List.mem_cons]
    tauto

/-- A starred character class reads any word over the class. -/
@[simp] theorem derives_star_sat {accept : Char → Bool} :
    Derives (star (sat accept)) start word rest captures ↔
      (∀ c ∈ word, accept c = true) ∧ captures = [] := by
  constructor
  · intro derivation
    generalize same : star (sat accept) = pattern at derivation
    induction derivation with
    | starNil => simp
    | starCons head _ _ _ ih =>
      cases same
      obtain ⟨c, holds, rfl, rfl⟩ := derives_sat.mp head
      obtain ⟨all, rfl⟩ := ih rfl
      refine ⟨?_, rfl⟩
      intro d member
      rcases List.mem_cons.mp member with rfl | later
      · exact holds
      · exact all d later
    | _ => cases same
  · rintro ⟨all, rfl⟩
    induction word generalizing start with
    | nil => exact .starNil
    | cons c word ih =>
      have tail : Derives (star (sat accept)) false word rest [] := ih fun d member => all d (List.mem_cons_of_mem _ member)
      exact .starCons (.sat (all c List.mem_cons_self)) (List.cons_ne_nil c []) tail

/-- What holds of the characters of every iteration holds of all characters. -/
theorem derives_star_all {body : Regex} {property : Char → Prop}
    (each : ∀ {start word rest captures}, Derives body start word rest captures → ∀ c ∈ word, property c)
    (derivation : Derives (star body) start word rest captures) : ∀ c ∈ word, property c := by
  generalize same : star body = pattern at derivation
  induction derivation with
  | starNil => simp
  | starCons head _ _ _ ih =>
    cases same
    intro c member
    rcases List.mem_append.mp member with first | later
    · exact each head c first
    · exact ih rfl c later
  | _ => cases same

/-- An iterated character class reads any non-empty word over the class. -/
@[simp] theorem derives_plus_sat {accept : Char → Bool} :
    Derives (plus (sat accept)) start word rest captures ↔
      word ≠ [] ∧ (∀ c ∈ word, accept c = true) ∧ captures = [] := by
  simp only [plus, derives_seq, derives_sat, derives_star_sat]
  constructor
  · rintro ⟨left, right, before, after, rfl, rfl, ⟨c, holds, rfl, rfl⟩, all, rfl⟩
    refine ⟨by simp, ?_, rfl⟩
    intro d member
    rcases List.mem_cons.mp member with rfl | later
    · exact holds
    · exact all d later
  · rintro ⟨nonempty, all, rfl⟩
    obtain ⟨c, word, rfl⟩ := List.exists_cons_of_ne_nil nonempty
    exact ⟨[c], word, [], [], rfl, rfl, ⟨c, all c List.mem_cons_self, rfl, rfl⟩,
      fun d member => all d (List.mem_cons_of_mem _ member), rfl⟩

/-! Sequences, by their first part. -/

theorem derives_bol_seq {second : Regex} :
    Derives (seq bol second) start word rest captures ↔ start = true ∧ Derives second start word rest captures := by
  rw [derives_seq]
  constructor
  · rintro ⟨left, right, before, after, rfl, rfl, head, tail⟩
    obtain ⟨rfl, rfl, rfl⟩ := derives_bol.mp head
    exact ⟨rfl, tail⟩
  · rintro ⟨rfl, tail⟩
    exact ⟨[], word, [], captures, rfl, rfl, .bol, tail⟩

theorem derives_chr_seq {c : Char} {second : Regex} :
    Derives (seq (chr c) second) start word rest captures ↔
      ∃ right, word = c :: right ∧ Derives second false right rest captures := by
  rw [derives_seq]
  constructor
  · rintro ⟨left, right, before, after, rfl, rfl, head, tail⟩
    obtain ⟨rfl, rfl⟩ := derives_chr.mp head
    exact ⟨right, rfl, by simpa using tail⟩
  · rintro ⟨right, rfl, tail⟩
    exact ⟨[c], right, [], captures, rfl, rfl, derives_chr.mpr ⟨rfl, rfl⟩, by simpa using tail⟩

/-- A pattern that reads the words of a language and records nothing. -/
def Reads (pattern : Regex) (language : List Char → Prop) : Prop :=
  ∀ {start word rest captures}, Derives pattern start word rest captures ↔ language word ∧ captures = []

theorem Reads.derives_seq {first second : Regex} {language : List Char → Prop} (reads : Reads first language) :
    Derives (seq first second) start word rest captures ↔
      ∃ left right, word = left ++ right ∧ language left ∧ Derives second (start && left.isEmpty) right rest captures := by
  rw [Regex.derives_seq]
  constructor
  · rintro ⟨left, right, before, after, rfl, rfl, head, tail⟩
    obtain ⟨member, rfl⟩ := reads.mp head
    exact ⟨left, right, rfl, member, tail⟩
  · rintro ⟨left, right, rfl, member, tail⟩
    exact ⟨left, right, [], captures, rfl, rfl, reads.mpr ⟨member, rfl⟩, tail⟩

theorem Reads.derives_group_seq {index : ℕ} {first second : Regex} {language : List Char → Prop}
    (reads : Reads first language) :
    Derives (seq (group index first) second) start word rest captures ↔
      ∃ left right later, word = left ++ right ∧ language left ∧ captures = (index, left) :: later ∧
        Derives second (start && left.isEmpty) right rest later := by
  rw [Regex.derives_seq]
  constructor
  · rintro ⟨left, right, before, after, rfl, rfl, head, tail⟩
    obtain ⟨inner, rfl, body⟩ := derives_group.mp head
    obtain ⟨member, rfl⟩ := reads.mp body
    exact ⟨left, right, after, rfl, member, rfl, tail⟩
  · rintro ⟨left, right, later, rfl, member, rfl, tail⟩
    exact ⟨left, right, [(index, left)], later, rfl, rfl, derives_group.mpr ⟨[], rfl, reads.mpr ⟨member, rfl⟩⟩, tail⟩

end Rules

/-! ## Engine entry points -/

/-- A reported match: the text skipped before it, the matched text, the unread rest, the groups. -/
structure Found where
  before : List Char
  text : List Char
  rest : List Char
  captures : Captures

/-- The preferred match beginning exactly here. -/
def matchAt (pattern : Regex) (start : Bool) (subject : List Char) : Option Found :=
  (run pattern start subject).head?.map fun hit =>
    { before := [], text := subject.take (subject.length - hit.1.length)
      rest := hit.1, captures := hit.2 }

/-- The preferred match of the whole subject (`std::regex_match`). -/
def fullMatch (pattern : Regex) (subject : List Char) : Option Captures :=
  ((run pattern true subject).find? fun hit => hit.1.isEmpty).map Prod.snd

/-- The leftmost match from a position on. -/
def searchFrom (pattern : Regex) : Bool → List Char → Option Found
  | start, [] => matchAt pattern start []
  | start, c :: rest =>
    match matchAt pattern start (c :: rest) with
    | some found => some found
    | none => (searchFrom pattern false rest).map fun found =>
      { found with before := c :: found.before }

/-- The leftmost match in the subject (`std::regex_search`). -/
def search (pattern : Regex) (subject : List Char) : Option Found :=
  searchFrom pattern true subject

/-- Successive matches; `skip` characters still belong to the match reported last. -/
def iterateFrom (pattern : Regex) : ℕ → Bool → List Char → List Found
  | _, _, [] => []
  | skip + 1, _, _ :: rest => iterateFrom pattern skip false rest
  | 0, start, c :: rest =>
    match matchAt pattern start (c :: rest) with
    | some found => found :: iterateFrom pattern (found.text.length - 1) false rest
    | none => iterateFrom pattern 0 false rest

/-- All successive matches (`std::sregex_iterator`), for patterns that never match the empty text. -/
def iterate (pattern : Regex) (subject : List Char) : List Found :=
  iterateFrom pattern 0 true subject

section EntryPoints

variable {pattern : Regex} {start : Bool} {subject : List Char}

theorem fullMatch_derives {captures : Captures} (success : fullMatch pattern subject = some captures) :
    Derives pattern true subject [] captures := by
  obtain ⟨⟨rest, found⟩, hit, rfl⟩ := Option.map_eq_some_iff.mp success
  obtain rfl : rest = [] := by simpa using List.find?_some hit
  obtain ⟨word, split, derivation⟩ := (mem_run ..).mp (List.mem_of_find?_eq_some hit)
  rw [List.append_nil] at split
  rwa [split]

theorem fullMatch_isSome_iff :
    (fullMatch pattern subject).isSome = true ↔ ∃ captures, Derives pattern true subject [] captures := by
  constructor
  · intro success
    obtain ⟨captures, found⟩ := Option.isSome_iff_exists.mp success
    exact ⟨captures, fullMatch_derives found⟩
  · rintro ⟨captures, derivation⟩
    rw [fullMatch, Option.isSome_map, List.find?_isSome]
    exact ⟨([], captures), (mem_run ..).mpr ⟨subject, (List.append_nil _).symm, derivation⟩, rfl⟩

/-- A pattern with one reading of the subject reports that reading. -/
theorem fullMatch_eq_some {captures : Captures} (derivation : Derives pattern true subject [] captures)
    (unique : ∀ other, Derives pattern true subject [] other → other = captures) :
    fullMatch pattern subject = some captures := by
  obtain ⟨found, success⟩ := Option.isSome_iff_exists.mp (fullMatch_isSome_iff.mpr ⟨captures, derivation⟩)
  rw [success, unique found (fullMatch_derives success)]

theorem fullMatch_eq_none (underivable : ∀ captures, ¬ Derives pattern true subject [] captures) :
    fullMatch pattern subject = none := by
  rw [← Option.not_isSome_iff_eq_none, fullMatch_isSome_iff]
  exact fun ⟨captures, derivation⟩ => underivable captures derivation

theorem matchAt_derives {found : Found} (success : matchAt pattern start subject = some found) :
    found.before = [] ∧ subject = found.text ++ found.rest ∧
      Derives pattern start found.text found.rest found.captures := by
  obtain ⟨⟨rest, captures⟩, hit, rfl⟩ := Option.map_eq_some_iff.mp success
  obtain ⟨word, rfl, derivation⟩ := (mem_run ..).mp (List.mem_of_head? hit)
  simp only [take_length_sub]
  exact ⟨trivial, trivial, derivation⟩

theorem matchAt_isSome {word rest : List Char} {captures : Captures}
    (derivation : Derives pattern start word rest captures) :
    (matchAt pattern start (word ++ rest)).isSome = true := by
  rw [matchAt, Option.isSome_map, List.isSome_head?]
  have member := (mem_run pattern start (word ++ rest) rest captures).mpr ⟨word, rfl, derivation⟩
  exact fun empty => by simp only [empty, List.not_mem_nil] at member

theorem matchAt_eq_none
    (underivable : ∀ word rest captures, subject = word ++ rest →
      ¬ Derives pattern start word rest captures) :
    matchAt pattern start subject = none := by
  cases attempt : matchAt pattern start subject with
  | none => rfl
  | some found =>
    obtain ⟨-, split, derivation⟩ := matchAt_derives attempt
    exact absurd derivation (underivable _ _ _ split)

/-- A found match splits the subject, and its text is derivable where it stands. -/
theorem searchFrom_derives {found : Found} (success : searchFrom pattern start subject = some found) :
    subject = found.before ++ found.text ++ found.rest ∧
      Derives pattern (start && found.before.isEmpty) found.text found.rest found.captures := by
  induction subject generalizing start found with
  | nil =>
    obtain ⟨before, split, derivation⟩ := matchAt_derives success
    simp only [before, List.nil_append, List.isEmpty_nil, Bool.and_true]
    exact ⟨split, derivation⟩
  | cons c subject ih =>
    simp only [searchFrom] at success
    cases attempt : matchAt pattern start (c :: subject) with
    | some here =>
      rw [attempt] at success
      obtain rfl := Option.some.inj success
      obtain ⟨before, split, derivation⟩ := matchAt_derives attempt
      simp only [before, List.nil_append, List.isEmpty_nil, Bool.and_true]
      exact ⟨split, derivation⟩
    | none =>
      rw [attempt] at success
      obtain ⟨later, hit, rfl⟩ := Option.map_eq_some_iff.mp success
      obtain ⟨split, derivation⟩ := ih hit
      simp only [Bool.false_and] at derivation
      simp only [List.isEmpty_cons, Bool.and_false, List.cons_append]
      exact ⟨congrArg (c :: ·) split, derivation⟩

/-- A pattern anchored at both ends. -/
def Anchored (pattern : Regex) : Prop :=
  ∀ {start word rest captures}, Derives pattern start word rest captures → start = true ∧ rest = []

/-- Searching for an anchored pattern matches the whole subject. -/
theorem Anchored.search_derives {found : Found} (anchored : Anchored pattern)
    (success : search pattern subject = some found) : Derives pattern true subject [] found.captures := by
  obtain ⟨split, derivation⟩ := searchFrom_derives success
  obtain ⟨start, rest⟩ := anchored derivation
  have before : found.before = [] := by simpa using start
  rw [before, rest, List.nil_append, List.append_nil] at split
  rwa [split, ← rest, ← start]

theorem search_isSome {captures : Captures} (derivation : Derives pattern true subject [] captures) :
    (search pattern subject).isSome = true := by
  have here := matchAt_isSome derivation
  rw [List.append_nil] at here
  rw [search]
  cases subject with
  | nil => exact here
  | cons c rest =>
    obtain ⟨found, hit⟩ := Option.isSome_iff_exists.mp here
    rw [searchFrom, hit]
    rfl

/-- Characters at which no match begins are stepped over. -/
theorem iterateFrom_skip {c : Char}
    (underivable : ∀ word rest captures, c :: subject = word ++ rest →
      ¬ Derives pattern start word rest captures) :
    iterateFrom pattern 0 start (c :: subject) = iterateFrom pattern 0 false subject := by
  rw [iterateFrom, matchAt_eq_none underivable]

theorem iterateFrom_drop (pattern : Regex) (subject : List Char) (skip : ℕ) (word : List Char)
    (length : word.length = skip) :
    iterateFrom pattern skip false (word ++ subject) = iterateFrom pattern 0 false subject := by
  induction word generalizing skip with
  | nil =>
    obtain rfl : skip = 0 := by simpa using length.symm
    rfl
  | cons c word ih =>
    obtain rfl : skip = word.length + 1 := by simpa using length.symm
    rw [List.cons_append, iterateFrom]
    exact ih word.length rfl

/-- Where every match contains a character that the subject lacks, nothing is found. -/
theorem iterateFrom_eq_nil {marker : Char}
    (marked : ∀ {start word rest captures}, Derives pattern start word rest captures → marker ∈ word)
    (absent : marker ∉ subject) : iterateFrom pattern 0 start subject = [] := by
  induction subject generalizing start with
  | nil => rfl
  | cons c subject ih =>
    rw [iterateFrom_skip]
    · exact ih fun member => absent (List.mem_cons_of_mem _ member)
    · intro word rest captures split derivation
      exact absent (split ▸ List.mem_append_left _ (marked derivation))

/-- The characters before the first place where a match can begin are stepped over. -/
theorem iterateFrom_append {first : Char} {before : List Char}
    (begins : ∀ {start word rest captures}, Derives pattern start word rest captures → word.head? = some first)
    (absent : first ∉ before) (nonempty : before ≠ []) :
    iterateFrom pattern 0 start (before ++ subject) = iterateFrom pattern 0 false subject := by
  induction before generalizing start with
  | nil => exact absurd rfl nonempty
  | cons c before ih =>
    rw [List.cons_append, iterateFrom_skip]
    · cases before with
      | nil => rfl
      | cons d before => exact ih (fun member => absent (List.mem_cons_of_mem _ member)) (List.cons_ne_nil d before)
    · intro word rest captures split derivation
      have head := begins derivation
      cases word with
      | nil => cases head
      | cons d word =>
        obtain rfl : c = d := (List.cons.inj split).1
        obtain rfl : c = first := Option.some.inj head
        exact absent List.mem_cons_self

/-- Where every match beginning here has the same extent, that extent is reported. -/
theorem matchAt_unique {word rest : List Char} {captures : Captures} (derivation : Derives pattern start word rest captures)
    (unique : ∀ word' rest' captures', word ++ rest = word' ++ rest' →
      Derives pattern start word' rest' captures' → word' = word) :
    ∃ found, matchAt pattern start (word ++ rest) = some found ∧ found.text = word := by
  obtain ⟨found, hit⟩ := Option.isSome_iff_exists.mp (matchAt_isSome derivation)
  obtain ⟨-, split, derived⟩ := matchAt_derives hit
  exact ⟨found, hit, unique _ _ _ split derived⟩

/-- The iteration reports that extent and resumes right after it. -/
theorem iterateFrom_match {word rest : List Char} {captures : Captures} (nonempty : word ≠ [])
    (derivation : Derives pattern start word rest captures)
    (unique : ∀ word' rest' captures', word ++ rest = word' ++ rest' →
      Derives pattern start word' rest' captures' → word' = word) :
    ∃ found : Found, found.text = word ∧ iterateFrom pattern 0 start (word ++ rest) =
      found :: iterateFrom pattern 0 false rest := by
  obtain ⟨found, hit, same⟩ := matchAt_unique derivation unique
  obtain ⟨c, tail, rfl⟩ := List.exists_cons_of_ne_nil nonempty
  refine ⟨found, same, ?_⟩
  rw [List.cons_append] at hit ⊢
  rw [iterateFrom, hit]
  simp only [same, List.length_cons, Nat.add_sub_cancel]
  exact congrArg (found :: ·) (iterateFrom_drop _ _ _ tail rfl)

theorem searchFrom_here {found : Found} (hit : matchAt pattern start subject = some found) :
    searchFrom pattern start subject = some found := by
  cases subject with
  | nil => exact hit
  | cons c subject => rw [searchFrom, hit]

/-- A search steps over the characters at which no match begins. -/
theorem searchFrom_append {before : List Char} (nonempty : before ≠ [])
    (underivable : ∀ {start word rest captures c text}, c :: text <:+ before → c :: (text ++ subject) = word ++ rest →
      ¬ Derives pattern start word rest captures) :
    (searchFrom pattern start (before ++ subject)).map Found.text = (searchFrom pattern false subject).map Found.text := by
  induction before generalizing start with
  | nil => exact absurd rfl nonempty
  | cons c before ih =>
    have none : matchAt pattern start (c :: (before ++ subject)) = none :=
      matchAt_eq_none fun word rest captures split => underivable (List.suffix_refl _) split
    rw [List.cons_append, searchFrom, none, Option.map_map]
    cases before with
    | nil => rfl
    | cons d before =>
      exact ih (List.cons_ne_nil d before) fun suffix => underivable (suffix.trans (List.suffix_cons c _))

/-- A match that can begin anywhere is found wherever its text stands. -/
theorem searchFrom_isSome_of_infix {word : List Char} {captures : Captures}
    (derives : ∀ start rest, Derives pattern start word rest captures) (stands : word <:+: subject) (start : Bool) :
    (searchFrom pattern start subject).isSome = true := by
  induction subject generalizing start with
  | nil =>
    obtain rfl := List.infix_nil.mp stands
    exact matchAt_isSome (derives start [])
  | cons c subject ih =>
    rw [searchFrom]
    cases here : matchAt pattern start (c :: subject) with
    | some found => rfl
    | none =>
      rcases List.infix_cons_iff.mp stands with ⟨rest, whole⟩ | later
      · have hit := matchAt_isSome (derives start rest)
        rw [whole, here] at hit
        cases hit
      · rw [Option.isSome_map]
        exact ih later false

/-- What an iteration reports is derivable. -/
theorem derives_of_mem_iterate {skip : ℕ} {found : Found}
    (member : found ∈ iterateFrom pattern skip start subject) :
    ∃ start, Derives pattern start found.text found.rest found.captures := by
  induction subject generalizing skip start with
  | nil =>
    cases skip <;> cases member
  | cons c subject ih =>
    cases skip with
    | succ skip => exact ih member
    | zero =>
      rw [iterateFrom] at member
      cases here : matchAt pattern start (c :: subject) with
      | none =>
        rw [here] at member
        exact ih member
      | some hit =>
        rw [here] at member
        rcases List.mem_cons.mp member with rfl | later
        · exact ⟨start, (matchAt_derives here).2.2⟩
        · exact ih later

theorem infix_of_mem_iterate {skip : ℕ} {found : Found} (member : found ∈ iterateFrom pattern skip start subject) :
    found.text <:+: subject := by
  induction subject generalizing skip start with
  | nil =>
    cases skip <;> cases member
  | cons c subject ih =>
    have behind (inside : found.text <:+: subject) : found.text <:+: c :: subject :=
      inside.trans (List.suffix_cons c subject).isInfix
    cases skip with
    | succ skip => exact behind (ih member)
    | zero =>
      rw [iterateFrom] at member
      cases here : matchAt pattern start (c :: subject) with
      | none =>
        rw [here] at member
        exact behind (ih member)
      | some hit =>
        rw [here] at member
        rcases List.mem_cons.mp member with rfl | later
        · rw [(matchAt_derives here).2.1]
          exact (List.prefix_append ..).isInfix
        · exact behind (ih later)

/-- Where every match contains a text that the subject lacks, nothing is found. -/
theorem searchFrom_eq_none {marker : List Char}
    (marked : ∀ {start word rest captures}, Derives pattern start word rest captures → marker <:+: word)
    (absent : ¬ marker <:+: subject) : searchFrom pattern start subject = none := by
  cases attempt : searchFrom pattern start subject with
  | none => rfl
  | some found =>
    obtain ⟨split, derivation⟩ := searchFrom_derives attempt
    rw [split] at absent
    exact absurd ((marked derivation).trans ⟨found.before, found.rest, rfl⟩) absent

end EntryPoints

/-! ## Greedy classes -/

section Greedy

variable {accept : Char → Bool} {start : Bool}

theorem run_lit (text rest : List Char) : run (lit text) start (text ++ rest) = [(rest, [])] := by
  induction text generalizing start with
  | nil => rfl
  | cons c text ih =>
    simp only [lit, chr, run, List.cons_append, beq_self_eq_true, ↓reduceIte, List.flatMap_cons, List.flatMap_nil,
      List.append_nil, ih, List.map_cons, List.map_nil, List.nil_append]

/-- A starred class prefers the longest word. -/
theorem head?_run_star_sat (subject : List Char) :
    (run (star (sat accept)) start subject).head? = some (subject.dropWhile accept, []) := by
  rw [run]
  induction subject generalizing start with
  | nil => rfl
  | cons c rest ih =>
    rw [List.length_cons, runStar, run]
    by_cases holds : accept c = true
    · simp only [holds, ↓reduceIte, List.length_cons, Nat.lt_succ_self, decide_true, List.filter_cons_of_pos,
        List.filter_nil, List.flatMap_cons, List.flatMap_nil, List.append_nil, List.nil_append, List.head?_append,
        List.head?_map, ih, List.dropWhile_cons_of_pos holds, Option.map_some, Option.some_or]
    · simp only [holds, Bool.false_eq_true, ↓reduceIte, List.filter_nil, List.flatMap_nil, List.nil_append,
        List.head?_cons, List.dropWhile_cons_of_neg holds]

theorem head?_run_plus_sat {c : Char} (holds : accept c = true) (subject : List Char) :
    (run (plus (sat accept)) start (c :: subject)).head? = some (subject.dropWhile accept, []) := by
  rw [plus, run, run, if_pos holds]
  simp only [List.flatMap_cons, List.flatMap_nil, List.append_nil, List.nil_append, List.head?_map,
    head?_run_star_sat, Option.map_some]

/-- A word of the class is dropped up to the first character outside of it. -/
theorem dropWhile_append_stop {word rest : List Char} (all : ∀ c ∈ word, accept c = true)
    (stop : ∀ c ∈ rest.head?, accept c = false) : (word ++ rest).dropWhile accept = rest := by
  rw [List.dropWhile_append_of_pos all]
  cases rest with
  | nil => rfl
  | cons c rest => rw [List.dropWhile_cons_of_neg (by simpa using stop c rfl)]

/-- A literal followed by a class is matched to the end of the class. -/
theorem matchAt_lit_plus (start : Bool) (text : List Char) {digits : List Char} (rest : List Char)
    (nonempty : digits ≠ []) (all : ∀ c ∈ digits, accept c = true)
    (stop : ∀ c ∈ rest.head?, accept c = false) :
    matchAt (seq (lit text) (plus (sat accept))) start (text ++ (digits ++ rest)) =
      some { before := [], text := text ++ digits, rest := rest, captures := [] } := by
  obtain ⟨c, digits, rfl⟩ := List.exists_cons_of_ne_nil nonempty
  have dropped : (digits ++ rest).dropWhile accept = rest :=
    dropWhile_append_stop (fun d member => all d (List.mem_cons_of_mem _ member)) stop
  rw [matchAt, run, run_lit]
  simp only [List.flatMap_cons, List.flatMap_nil, List.append_nil, List.nil_append, List.head?_map, List.cons_append,
    head?_run_plus_sat (all c List.mem_cons_self), dropped, Option.map_some]
  rw [← List.cons_append, ← List.append_assoc, take_length_sub]

/-- A class at the beginning is matched to its end. -/
theorem matchAt_plus {word rest : List Char} (nonempty : word ≠ []) (all : ∀ c ∈ word, accept c = true)
    (stop : ∀ c ∈ rest.head?, accept c = false) :
    matchAt (plus (sat accept)) start (word ++ rest) =
      some { before := [], text := word, rest := rest, captures := [] } := by
  obtain ⟨c, word, rfl⟩ := List.exists_cons_of_ne_nil nonempty
  have dropped : (word ++ rest).dropWhile accept = rest :=
    dropWhile_append_stop (fun d member => all d (List.mem_cons_of_mem _ member)) stop
  rw [matchAt, List.cons_append, head?_run_plus_sat (all c List.mem_cons_self), dropped, Option.map_some]
  simp only [← List.cons_append, take_length_sub]

/-- The first word of a class. -/
theorem search_plus {before word rest : List Char} (away : ∀ c ∈ before, accept c = false) (nonempty : word ≠ [])
    (all : ∀ c ∈ word, accept c = true) (stop : ∀ c ∈ rest.head?, accept c = false) :
    (search (plus (sat accept)) (before ++ (word ++ rest))).map Found.text = some word := by
  have here (start : Bool) : (searchFrom (plus (sat accept)) start (word ++ rest)).map Found.text = some word := by
    rw [searchFrom_here (matchAt_plus nonempty all stop)]
    rfl
  rw [search]
  cases before with
  | nil => exact here true
  | cons c before =>
    rw [searchFrom_append (List.cons_ne_nil c before), here]
    intro start read later captures d text suffix split derivation
    obtain ⟨nonempty, accepted, -⟩ := derives_plus_sat.mp derivation
    obtain ⟨e, tail, rfl⟩ := List.exists_cons_of_ne_nil nonempty
    have inside := accepted e List.mem_cons_self
    obtain rfl := (List.cons.inj split).1
    rw [away d (suffix.subset List.mem_cons_self)] at inside
    cases inside

/-! The most preferred success of a pattern, by its parts. -/

section Preferred

variable {first second body : Regex} {subject middle rest : List Char} {before after captures : Captures}

theorem head?_run_seq (left : (run first start subject).head? = some (middle, before))
    (right : ∀ start, (run second start middle).head? = some (rest, after)) :
    (run (seq first second) start subject).head? = some (rest, before ++ after) := by
  obtain ⟨hits, whole⟩ := List.head?_eq_some_iff.mp left
  rw [run, whole, List.flatMap_cons, List.head?_append, List.head?_map, right]
  rfl

theorem head?_run_alt {hit : List Char × Captures} (left : (run first start subject).head? = some hit) :
    (run (alt first second) start subject).head? = some hit := by
  rw [run, List.head?_append, left, Option.some_or]

theorem run_alt_right (fails : run first start subject = []) :
    run (alt first second) start subject = run second start subject := by
  rw [run, fails, List.nil_append]

theorem head?_run_group {index : ℕ} {word : List Char}
    (inner : (run first start (word ++ rest)).head? = some (rest, before)) :
    (run (group index first) start (word ++ rest)).head? = some (rest, before ++ [(index, word)]) := by
  rw [run, List.head?_map, inner, Option.map_some, take_length_sub]

/-- More iterations than there are characters make no difference. -/
theorem runStar_succ (step : Bool → List Char → List (List Char × Captures)) (fuel : ℕ) (start : Bool)
    (subject : List Char) (enough : subject.length ≤ fuel) :
    runStar step (fuel + 1) start subject = runStar step fuel start subject := by
  induction fuel generalizing start subject with
  | zero =>
    obtain rfl := List.length_eq_zero_iff.mp (Nat.le_zero.mp enough)
    simp [runStar]
  | succ fuel ih =>
    rw [runStar, runStar.eq_2 step start subject fuel]
    congr 1
    refine List.flatMap_congr fun hit member => ?_
    have shorter : hit.1.length < subject.length := by simpa using (List.mem_filter.mp member).2
    rw [ih false hit.1 (by omega)]

theorem runStar_fuel (step : Bool → List Char → List (List Char × Captures)) {fuel : ℕ} (start : Bool)
    {subject : List Char} (enough : subject.length ≤ fuel) :
    runStar step fuel start subject = runStar step subject.length start subject := by
  induction fuel, enough using Nat.le_induction with
  | base => rfl
  | succ fuel enough ih => rw [runStar_succ step fuel start subject enough, ih]

/-- The preferred success of a repetition goes on behind that of its body. -/
theorem head?_run_star_cons (first : (run body start subject).head? = some (middle, before))
    (shorter : middle.length < subject.length) (later : (run (star body) false middle).head? = some (rest, after)) :
    (run (star body) start subject).head? = some (rest, before ++ after) := by
  obtain ⟨hits, whole⟩ := List.head?_eq_some_iff.mp first
  obtain ⟨fuel, length⟩ : ∃ fuel, subject.length = fuel + 1 := Nat.exists_eq_succ_of_ne_zero (by omega)
  rw [run] at later
  rw [run, length, runStar, whole, List.filter_cons_of_pos (by simpa using shorter), List.flatMap_cons,
    runStar_fuel (run body) false (by simp only; omega)]
  rw [List.append_assoc, List.head?_append, List.head?_map, later]
  rfl

/-- A repetition whose body fails reads nothing. -/
theorem head?_run_star_nil (fails : run body start subject = []) :
    (run (star body) start subject).head? = some (subject, []) := by
  rw [run]
  cases subject with
  | nil => rfl
  | cons c subject => simp [runStar, fails]

/-- The preferred success at the beginning of the subject is the one that a search reports. -/
theorem search_of_head? (preferred : (run first true subject).head? = some (rest, captures)) :
    ∃ found, search first subject = some found ∧ found.captures = captures := by
  have hit : matchAt first true subject =
      some ⟨[], subject.take (subject.length - rest.length), rest, captures⟩ := by
    rw [matchAt, preferred]
    rfl
  exact ⟨_, searchFrom_here hit, rfl⟩

/-- A pattern without a reading has no success. -/
theorem run_eq_nil (underivable : ∀ word rest captures, subject = word ++ rest → ¬ Derives first start word rest captures) :
    run first start subject = [] := by
  rw [List.eq_nil_iff_forall_not_mem]
  rintro ⟨rest, captures⟩ member
  obtain ⟨word, split, derivation⟩ := (mem_run ..).mp member
  exact underivable word rest captures split derivation

/-- A pattern whose most preferred success reads the whole subject reports it. -/
theorem fullMatch_of_head? {captures : Captures} (preferred : (run first true subject).head? = some ([], captures)) :
    fullMatch first subject = some captures := by
  obtain ⟨hits, whole⟩ := List.head?_eq_some_iff.mp preferred
  rw [fullMatch, whole]
  rfl

end Preferred

end Greedy

end Regex
