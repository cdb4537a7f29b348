import Sysdarft.Coding.HeadersAndDefinitions

/-! # Where an included file is found

One stream is opened again and again: the search ends at the first directory without the file, and once a file is
open every further `open` fails. So the directories are only searched as documented when there is at most one.
-/

namespace Sysdarft.Coding

variable {files : FileSystem} {include_file : List Char} {stream : InputStream} {content : List (List Char)}

/-- Where a file is to be found: under its own path, otherwise in the first directory that has it. -/
def includeSource (files : FileSystem) (include_path : List (List Char)) (include_file : List Char) :
    Option (List (List Char)) :=
  (files include_file).or (include_path.findSome? fun path => files (path ++ '/' :: include_file))

/-- Inclusion succeeds exactly when there is a source, and records its content. -/
def IncludedFrom (source : Option (List (List Char))) (result : Except BuildError IncludeFile) : Prop :=
  ((∃ header, result = .ok header) ↔ source.isSome = true) ∧ ∀ header, result = .ok header → source = some header.content

theorem openFile_open (opened : stream.file = some content) (path : List Char) :
    stream.openFile files path = ⟨some content, true⟩ := by
  cases stream
  simp_all [InputStream.openFile]

theorem openFile_closed (closed : stream.file = none) (path : List Char) :
    stream.openFile files path = ⟨files path, (files path).isNone⟩ := by
  cases found : files path <;> simp [InputStream.openFile, closed, found]

/-- With a file open, the loop runs to its end and every turn fails. -/
theorem searchIncludePath_open (opened : stream.file = some content) (include_path : List (List Char)) :
    searchIncludePath files include_file include_path stream =
      ⟨some content, stream.fail || !include_path.isEmpty⟩ := by
  induction include_path generalizing stream with
  | nil =>
    cases stream
    simp_all [searchIncludePath]
  | cons path rest ih =>
    have later := @ih ⟨some content, true⟩ rfl
    simp only [searchIncludePath, openFile_open opened, Option.isNone_some, Bool.false_eq_true, ↓reduceIte, later]
    simp

/-- Without an open file, the first directory decides. -/
theorem searchIncludePath_closed (closed : stream.file = none) (path : List Char) (rest : List (List Char)) :
    searchIncludePath files include_file (path :: rest) stream =
      ⟨files (path ++ '/' :: include_file), (files (path ++ '/' :: include_file)).isNone || !rest.isEmpty⟩ := by
  cases found : files (path ++ '/' :: include_file) with
  | none => simp [searchIncludePath, openFile_closed closed, found]
  | some content =>
    have later : searchIncludePath files include_file rest ⟨some content, false⟩ = ⟨some content, false || !rest.isEmpty⟩ :=
      searchIncludePath_open rfl rest
    simp [searchIncludePath, openFile_closed closed, found, later]

section Included

variable {include_path : List (List Char)} {line_number : ℕ} {line : List Char}

theorem processInclude_own (own : files (capture includePattern 1 line) = some content) :
    processInclude files include_path line_number line = .ok ⟨capture includePattern 1 line, line_number, content⟩ := by
  have opened : InputStream.closed.openFile files (capture includePattern 1 line) = ⟨some content, false⟩ := by
    rw [openFile_closed rfl, own]
    rfl
  simp [processInclude, opened]

theorem processInclude_nil (own : files (capture includePattern 1 line) = none) :
    processInclude files [] line_number line =
      .error (.preProcessor ("Couldn't open include file ".toList ++ capture includePattern 1 line)) := by
  have opened : InputStream.closed.openFile files (capture includePattern 1 line) = ⟨none, true⟩ := by
    rw [openFile_closed rfl, own]
    rfl
  simp [processInclude, opened, searchIncludePath]

theorem processInclude_cons (own : files (capture includePattern 1 line) = none) (path : List Char)
    (rest : List (List Char)) :
    processInclude files (path :: rest) line_number line =
      match files (path ++ '/' :: capture includePattern 1 line), rest with
      | some content, [] => .ok ⟨capture includePattern 1 line, line_number, content⟩
      | _, _ => .error (.preProcessor ("Couldn't open include file ".toList ++ capture includePattern 1 line)) := by
  have opened : InputStream.closed.openFile files (capture includePattern 1 line) = ⟨none, true⟩ := by
    rw [openFile_closed rfl, own]
    rfl
  have searched := @searchIncludePath_closed files (capture includePattern 1 line) ⟨none, true⟩ rfl path rest
  cases found : files (path ++ '/' :: capture includePattern 1 line) with
  | none => simp [processInclude, opened, searched, found]
  | some content => cases rest <;> simp [processInclude, opened, searched, found]

/-- The search follows the documentation exactly when the file opens under its own path, the list has at most one
directory, or no directory has the file. -/
theorem processInclude_iff (files : FileSystem) (include_path : List (List Char)) (line_number : ℕ) (line : List Char) :
    IncludedFrom (includeSource files include_path (capture includePattern 1 line))
        (processInclude files include_path line_number line) ↔
      (files (capture includePattern 1 line)).isSome = true ∨ include_path.length ≤ 1 ∨
        ∀ path ∈ include_path, files (path ++ '/' :: capture includePattern 1 line) = none := by
  cases own : files (capture includePattern 1 line) with
  | some content => simp [IncludedFrom, includeSource, own, processInclude_own own]
  | none =>
    cases include_path with
    | nil => simp [IncludedFrom, includeSource, own, processInclude_nil own]
    | cons path rest =>
      have source : includeSource files (path :: rest) (capture includePattern 1 line) =
          (path :: rest).findSome? fun path => files (path ++ '/' :: capture includePattern 1 line) := by
        rw [includeSource, own, Option.none_or]
      rw [processInclude_cons own, source]
      cases rest with
      | nil =>
        cases found : files (path ++ '/' :: capture includePattern 1 line) <;> simp [IncludedFrom, found]
      | cons next rest =>
        -- The inclusion fails, which is right when no directory has the file.
        simp only [IncludedFrom, reduceCtorEq, exists_false, false_iff, Bool.not_eq_true, Option.isSome_eq_false_iff,
          Option.isNone_iff_eq_none, List.findSome?_eq_none_iff, IsEmpty.forall_iff, implies_true, and_true,
          Option.isSome_none, Bool.false_eq_true, false_or, List.length_cons, Nat.reduceLeDiff]

/-- A header that only the second directory has is not found. -/
theorem not_includedFrom_second :
    let files : FileSystem := fun path => if path = "b/x".toList then some [] else none
    let line := "%include \"x\"".toList
    ¬ IncludedFrom (includeSource files ["a".toList, "b".toList] (capture includePattern 1 line))
      (processInclude files ["a".toList, "b".toList] 1 line) := by
  intro files line
  have fails : processInclude files ["a".toList, "b".toList] 1 line =
      .error (.preProcessor "Couldn't open include file x".toList) := by decide +kernel
  have found : (includeSource files ["a".toList, "b".toList] (capture includePattern 1 line)).isSome = true := by
    decide +kernel
  rw [fails]
  rintro ⟨succeeds, -⟩
  obtain ⟨header, success⟩ := succeeds.mpr found
  cases success

end Included

end Sysdarft.Coding
