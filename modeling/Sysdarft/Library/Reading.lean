import Sysdarft.Library.Effects

/-! # Programs that read a stream

A `Reader` takes pieces of a stream in order, and what it takes next depends on the pieces before. Its
outcome on a stream is computed without any state: it returns, it refuses what it read, or it asks for more
than the stream has. `Follows` says that a program with state does the same on a tape, where the states stand
for the positions of the stream.
-/

namespace Reading

variable {β ε α γ : Type}

/-- A program that takes pieces of a stream in order. -/
inductive Reader (β ε α : Type) where
  | done (a : α)
  | fail (e : ε)
  | take (size : ℕ) (next : List β → Reader β ε α)

namespace Reader

def bind : Reader β ε α → (α → Reader β ε γ) → Reader β ε γ
  | done a, f => f a
  | fail e, _ => fail e
  | take size next, f => take size fun piece => (next piece).bind f

instance : Monad (Reader β ε) where
  pure := done
  bind := bind

/-- One piece. -/
def piece (size : ℕ) : Reader β ε (List β) := take size done

end Reader

/-- How reading a stream ends, and at which position. -/
inductive Outcome (ε α : Type) where
  | done (a : α) (position : ℕ)
  | failed (e : ε) (position : ℕ)
  | starved (position : ℕ)

/-- What the stream has at a position, as a piece of a size. -/
abbrev Stream (β : Type) := ℕ → ℕ → Option (List β)

def Reader.outcome (stream : Stream β) : Reader β ε α → ℕ → Outcome ε α
  | done a, position => .done a position
  | fail e, position => .failed e position
  | take size next, position =>
    match stream position size with
    | some bytes => (next bytes).outcome stream (position + size)
    | none => .starved position

variable {stream : Stream β}

/-- A sequence goes on where its first part ends. -/
theorem outcome_bind (reader : Reader β ε α) (f : α → Reader β ε γ) (position : ℕ) :
    (reader >>= f).outcome stream position =
      match reader.outcome stream position with
      | .done a after => (f a).outcome stream after
      | .failed e after => .failed e after
      | .starved after => .starved after := by
  induction reader generalizing position with
  | done a => rfl
  | fail e => rfl
  | take size next ih =>
    change (Reader.take size fun bytes => next bytes >>= f).outcome stream position = _
    rw [Reader.outcome, Reader.outcome]
    cases stream position size with
    | none => rfl
    | some bytes => exact ih bytes (position + size)

/-- Whatever a reader returns has a property. -/
def Reader.Yields (P : α → Prop) : Reader β ε α → Prop
  | done a => P a
  | fail _ => True
  | take _ next => ∀ bytes, (next bytes).Yields P

variable {P : α → Prop}

theorem yields_trivial (reader : Reader β ε α) : reader.Yields fun _ => True := by
  induction reader with
  | done a => trivial
  | fail e => trivial
  | take size next ih => exact ih

theorem yields_bind {Q : γ → Prop} {reader : Reader β ε α} {f : α → Reader β ε γ} (first : reader.Yields P)
    (second : ∀ a, P a → (f a).Yields Q) : (reader >>= f).Yields Q := by
  induction reader with
  | done a => exact second a first
  | fail e => trivial
  | take size next ih => exact fun bytes => ih bytes (first bytes)

theorem Reader.Yields.outcome {reader : Reader β ε α} (yields : reader.Yields P) {position after : ℕ} {a : α}
    (done : reader.outcome stream position = .done a after) : P a := by
  induction reader generalizing position with
  | done a' =>
    cases done
    exact yields
  | fail e => cases done
  | take size next ih =>
    rw [Reader.outcome] at done
    cases found : stream position size with
    | none =>
      rw [found] at done
      cases done
    | some bytes =>
      rw [found] at done
      exact ih bytes (yields bytes) done

/-! ## Programs with state -/

/-- States that stand for the positions of a stream, and the exceptions of reading there. -/
structure Tape (β ε σ ε' : Type) where
  place : ℕ → σ
  stream : Stream β
  raises : ε → ε'
  ends : ε'

variable {σ ε' : Type} {tape : Tape β ε σ ε'}

/-- The outcome as the result of a program. -/
def Outcome.result (tape : Tape β ε σ ε') : Outcome ε α → EStateM.Result ε' σ α
  | done a position => .ok a (tape.place position)
  | failed e position => .error (tape.raises e) (tape.place position)
  | starved position => .error tape.ends (tape.place position)

/-- From every position of the tape, the program ends as the reader does. -/
def Follows (tape : Tape β ε σ ε') (x : EStateM ε' σ α) (reader : Reader β ε α) : Prop :=
  ∀ position, x (tape.place position) = (reader.outcome tape.stream position).result tape

theorem follows_pure (a : α) : Follows tape (pure a) (pure a) := fun _ => rfl

theorem follows_throw (e : ε) : Follows tape (throw (tape.raises e) : EStateM ε' σ α) (.fail e) := fun _ => rfl

/-- A program that looks at something all positions have in common. -/
theorem follows_look {x : EStateM ε' σ α} {a : α}
    (same : ∀ position, x (tape.place position) = .ok a (tape.place position)) :
    Follows tape x (pure a) := same

theorem follows_bind {x : EStateM ε' σ α} {f : α → EStateM ε' σ γ} {reader : Reader β ε α}
    {next : α → Reader β ε γ} (first : Follows tape x reader) (second : ∀ a, Follows tape (f a) (next a)) :
    Follows tape (x >>= f) (reader >>= next) := by
  intro position
  rw [Effects.bind_apply, first position, outcome_bind]
  cases reader.outcome tape.stream position with
  | done a after => exact second a after
  | failed e after => rfl
  | starved after => rfl

theorem follows_ite {c : Prop} [Decidable c] {x y : EStateM ε' σ α} {first second : Reader β ε α}
    (yes : Follows tape x first) (no : Follows tape y second) :
    Follows tape (if c then x else y) (if c then first else second) := by
  split_ifs
  · exact yes
  · exact no

end Reading
