import Mathlib.Tactic

/-! # Programs with state and exceptions

Evaluation rules for `EStateM` and `Except` programs. A throw keeps the state reached so far, as a C++ throw
does, and a handler starts from that state. The rules are stated for a program applied to a state,
so that `simp` can run a program symbolically.
-/

namespace Effects

variable {ε σ α β : Type}

@[simp] theorem pure_apply (a : α) (s : σ) : (pure a : EStateM ε σ α) s = .ok a s := rfl

@[simp] theorem get_apply (s : σ) : (get : EStateM ε σ σ) s = .ok s s := rfl

@[simp] theorem set_apply (s s' : σ) : (set s' : EStateM ε σ PUnit) s = .ok ⟨⟩ s' := rfl

@[simp] theorem modify_apply (f : σ → σ) (s : σ) : (modify f : EStateM ε σ PUnit) s = .ok ⟨⟩ (f s) := rfl

@[simp] theorem modifyGet_apply (f : σ → α × σ) (s : σ) :
    (modifyGet f : EStateM ε σ α) s = .ok (f s).1 (f s).2 := rfl

@[simp] theorem throw_apply (e : ε) (s : σ) : (throw e : EStateM ε σ α) s = .error e s := rfl

theorem bind_apply (x : EStateM ε σ α) (f : α → EStateM ε σ β) (s : σ) :
    (x >>= f) s = match x s with
      | .ok a s' => f a s'
      | .error e s' => .error e s' := rfl

theorem tryCatch_apply (x : EStateM ε σ α) (handle : ε → EStateM ε σ α) (s : σ) :
    (tryCatch x handle) s = match x s with
      | .ok a s' => .ok a s'
      | .error e s' => handle e s' := by
  change EStateM.tryCatch x handle s = _
  simp only [EStateM.tryCatch]
  cases x s <;> rfl

@[simp] theorem run_ite (c : Prop) [Decidable c] (x y : EStateM ε σ α) (s : σ) :
    (if c then x else y) s = if c then x s else y s := by
  split_ifs <;> rfl

@[simp] theorem run_dite (c : Prop) [Decidable c] (x : c → EStateM ε σ α) (y : ¬ c → EStateM ε σ α)
    (s : σ) : (if h : c then x h else y h) s = if h : c then x h s else y h s := by
  split_ifs <;> rfl

/-- A program that succeeds passes its result and state on. -/
theorem bind_ok {x : EStateM ε σ α} {f : α → EStateM ε σ β} {s s' : σ} {a : α} (done : x s = .ok a s') :
    (x >>= f) s = f a s' := by
  rw [bind_apply, done]

/-- A program that throws ends the sequence. -/
theorem bind_error {x : EStateM ε σ α} {f : α → EStateM ε σ β} {s s' : σ} {e : ε}
    (failed : x s = .error e s') : (x >>= f) s = .error e s' := by
  rw [bind_apply, failed]

/-- A sequence succeeds exactly when both parts do. -/
theorem bind_eq_ok {x : EStateM ε σ α} {f : α → EStateM ε σ β} {s s' : σ} {b : β} :
    (x >>= f) s = .ok b s' ↔ ∃ a middle, x s = .ok a middle ∧ f a middle = .ok b s' := by
  rw [bind_apply]
  cases x s with
  | ok a middle => simp
  | error e middle => simp

/-- A sequence throws exactly when its first part does, or its second part after it. -/
theorem bind_eq_error {x : EStateM ε σ α} {f : α → EStateM ε σ β} {s s' : σ} {e : ε} :
    (x >>= f) s = .error e s' ↔
      x s = .error e s' ∨ ∃ a middle, x s = .ok a middle ∧ f a middle = .error e s' := by
  rw [bind_apply]
  cases x s with
  | ok a middle => simp
  | error e middle => simp

theorem except_ok_bind (a : α) (f : α → Except ε β) : ((.ok a : Except ε α) >>= f) = f a := rfl

/-- Without a state: a sequence succeeds exactly when both parts do. -/
theorem except_bind_eq_ok {x : Except ε α} {f : α → Except ε β} {b : β} :
    (x >>= f) = .ok b ↔ ∃ a, x = .ok a ∧ f a = .ok b := by
  cases x with
  | ok a => simp [bind, Except.bind]
  | error e => simp [bind, Except.bind]

/-- It throws exactly when its first part does, or its second part after it. -/
theorem except_bind_eq_error {x : Except ε α} {f : α → Except ε β} {e : ε} :
    (x >>= f) = .error e ↔ x = .error e ∨ ∃ a, x = .ok a ∧ f a = .error e := by
  cases x with
  | ok a => simp [bind, Except.bind]
  | error e => simp [bind, Except.bind]

theorem except_map_eq_ok {x : Except ε α} {f : α → β} {b : β} : x.map f = .ok b ↔ ∃ a, x = .ok a ∧ f a = b := by
  cases x with
  | ok a => simp [Except.map]
  | error e => simp [Except.map]

theorem except_map_eq_error {x : Except ε α} {f : α → β} {e : ε} : x.map f = .error e ↔ x = .error e := by
  cases x with
  | ok a => simp [Except.map]
  | error e => simp [Except.map]

@[simp] theorem except_mapError_eq_ok {ε' : Type} {x : Except ε α} {f : ε → ε'} {a : α} :
    x.mapError f = .ok a ↔ x = .ok a := by
  cases x with
  | ok a => simp [Except.mapError]
  | error e => simp [Except.mapError]

theorem except_mapError_eq_error {ε' : Type} {x : Except ε α} {f : ε → ε'} {e' : ε'} :
    x.mapError f = .error e' ↔ ∃ e, x = .error e ∧ f e = e' := by
  cases x with
  | ok a => simp [Except.mapError]
  | error e => simp [Except.mapError]

theorem except_mapM_eq_ok {f : α → Except ε β} {inputs : List α} {outputs : List β} :
    inputs.mapM f = .ok outputs ↔ List.Forall₂ (fun input output => f input = .ok output) inputs outputs := by
  induction inputs generalizing outputs with
  | nil =>
    rw [List.mapM_nil, List.forall₂_nil_left_iff]
    exact ⟨fun same => (Except.ok.inj same).symm, fun same => same ▸ rfl⟩
  | cons input inputs ih =>
    rw [List.mapM_cons, except_bind_eq_ok, List.forall₂_cons_left_iff]
    constructor
    · rintro ⟨output, first, success⟩
      obtain ⟨rest, later, success⟩ := except_bind_eq_ok.mp success
      exact ⟨output, rest, first, ih.mp later, (Except.ok.inj success).symm⟩
    · rintro ⟨output, rest, first, later, rfl⟩
      exact ⟨output, first, except_bind_eq_ok.mpr ⟨rest, ih.mpr later, rfl⟩⟩

/-- The output of one input, and where it is. -/
theorem except_mapM_split {f : α → Except ε β} {before after : List α} {input : α} {outputs : List β}
    (done : (before ++ input :: after).mapM f = .ok outputs) :
    ∃ first output last, outputs = first ++ output :: last ∧ before.mapM f = .ok first ∧ f input = .ok output := by
  rw [List.mapM_append] at done
  obtain ⟨first, early, done⟩ := except_bind_eq_ok.mp done
  obtain ⟨rest, later, same⟩ := except_bind_eq_ok.mp done
  rw [List.mapM_cons] at later
  obtain ⟨output, here, later⟩ := except_bind_eq_ok.mp later
  obtain ⟨last, -, whole⟩ := except_bind_eq_ok.mp later
  refine ⟨first, output, last, ?_, early, here⟩
  rw [← Except.ok.inj same, ← Except.ok.inj whole]

theorem except_mapM_mem {f : α → Except ε β} {inputs : List α} {outputs : List β} (done : inputs.mapM f = .ok outputs)
    {input : α} (member : input ∈ inputs) : ∃ output, f input = .ok output := by
  obtain ⟨before, after, rfl⟩ := List.append_of_mem member
  obtain ⟨first, output, last, -, -, here⟩ := except_mapM_split done
  exact ⟨output, here⟩

/-- An output is that of one of the inputs. -/
theorem except_mapM_output {f : α → Except ε β} {inputs : List α} {outputs : List β} (done : inputs.mapM f = .ok outputs)
    {output : β} (member : output ∈ outputs) : ∃ input ∈ inputs, f input = .ok output := by
  have each := except_mapM_eq_ok.mp done
  clear done
  induction each with
  | nil => exact absurd member List.not_mem_nil
  | cons first later ih =>
    rcases List.mem_cons.mp member with rfl | inside
    · exact ⟨_, List.mem_cons_self, first⟩
    · obtain ⟨input, known, same⟩ := ih inside
      exact ⟨input, List.mem_cons_of_mem _ known, same⟩

/-- A loop that throws throws for one of its inputs. -/
theorem except_mapM_error {f : α → Except ε β} {inputs : List α} {e : ε} (failed : inputs.mapM f = .error e) :
    ∃ input ∈ inputs, f input = .error e := by
  induction inputs with
  | nil => cases failed
  | cons input inputs ih =>
    rw [List.mapM_cons, except_bind_eq_error] at failed
    rcases failed with first | ⟨output, -, failed⟩
    · exact ⟨input, List.mem_cons_self, first⟩
    · rcases except_bind_eq_error.mp failed with later | ⟨rest, -, last⟩
      · obtain ⟨other, member, failed⟩ := ih later
        exact ⟨other, List.mem_cons_of_mem _ member, failed⟩
      · cases last

/-- What every turn preserves holds at the end of a loop that does not throw. -/
theorem except_foldlM_rule {f : β → α → Except ε β} {inputs : List α} {P : β → Prop}
    (turn : ∀ b a b', a ∈ inputs → P b → f b a = .ok b' → P b') {b b' : β} (holds : P b)
    (done : inputs.foldlM f b = .ok b') : P b' := by
  induction inputs generalizing b with
  | nil =>
    obtain rfl := Except.ok.inj done
    exact holds
  | cons input inputs ih =>
    rw [List.foldlM_cons] at done
    obtain ⟨middle, first, done⟩ := except_bind_eq_ok.mp done
    exact ih (fun b a b' member => turn b a b' (List.mem_cons_of_mem _ member))
      (turn b input middle List.mem_cons_self holds first) done

/-- A loop whose turns each write one place, no place twice: every place written is written once, the others stay. -/
theorem except_foldlM_writes {f : List β → α → Except ε (List β)} {place : α → ℕ} {R : α → β → β → Prop}
    (writes : ∀ items a items', f items a = .ok items' →
      ∃ new, items' = items.set (place a) new ∧ ∀ old, items[place a]? = some old → R a old new)
    {inputs : List α} {items items' : List β} (once : (inputs.map place).Nodup) (done : inputs.foldlM f items = .ok items') :
    items'.length = items.length ∧ (∀ index ∉ inputs.map place, items'[index]? = items[index]?) ∧
      ∀ a ∈ inputs, ∀ old, items[place a]? = some old → ∃ new, items'[place a]? = some new ∧ R a old new := by
  induction inputs generalizing items with
  | nil =>
    obtain rfl := Except.ok.inj done
    exact ⟨rfl, fun _ _ => rfl, fun a member => absurd member List.not_mem_nil⟩
  | cons input inputs ih =>
    rw [List.foldlM_cons] at done
    obtain ⟨middle, first, done⟩ := except_bind_eq_ok.mp done
    obtain ⟨new, rfl, wrote⟩ := writes items input middle first
    obtain ⟨absent, once⟩ := List.nodup_cons.mp once
    obtain ⟨length, others, each⟩ := ih once done
    rw [List.length_set] at length
    refine ⟨length, fun index outside => ?_, fun a member old known => ?_⟩
    · rw [List.map_cons, List.mem_cons, not_or] at outside
      rw [others index outside.2, List.getElem?_set_ne (Ne.symm outside.1)]
    · rcases List.mem_cons.mp member with rfl | later
      · refine ⟨new, ?_, wrote old known⟩
        obtain ⟨inside, -⟩ := List.getElem?_eq_some_iff.mp known
        rw [others _ absent, List.getElem?_set_self inside]
      · refine each a later old ?_
        have differs : place input ≠ place a := fun same => absent (same ▸ List.mem_map_of_mem later)
        rwa [List.getElem?_set_ne differs]

/-! ## Exceptions in a computation that may not end -/

/-- A sequence succeeds exactly when both parts come to an end and do. -/
theorem nested_bind_eq_ok {x : ExceptT ε Option α} {f : α → ExceptT ε Option β} {b : β} :
    (x >>= f).run = some (.ok b) ↔ ∃ a, x.run = some (.ok a) ∧ (f a).run = some (.ok b) := by
  change (x.run.bind fun result => ExceptT.bindCont f result) = _ ↔ _
  cases ended : x.run with
  | none => simp
  | some outcome =>
    cases outcome with
    | ok a => simp [ExceptT.bindCont, ExceptT.run]
    | error e =>
      simp only [Option.bind_some, ExceptT.bindCont, Option.some.injEq, reduceCtorEq, false_and, exists_false, iff_false]
      exact fun same => by cases same

/-- What follows a success throws what the whole throws. -/
theorem nested_bind_ok {x : ExceptT ε Option α} {f : α → ExceptT ε Option β} {a : α} (first : x.run = some (.ok a)) :
    (x >>= f).run = (f a).run := by
  change (x.run.bind fun result => ExceptT.bindCont f result) = _
  rw [first]
  rfl

theorem nested_bind_error {x : ExceptT ε Option α} {f : α → ExceptT ε Option β} {a : α} {e : ε}
    (first : x.run = some (.ok a)) (failed : (f a).run = some (.error e)) : (x >>= f).run = some (.error e) :=
  (nested_bind_ok first).trans failed

theorem nested_pure_eq_ok {a b : α} : (pure a : ExceptT ε Option α).run = some (.ok b) ↔ a = b := by
  constructor
  · intro same
    exact Except.ok.inj (Option.some.inj same)
  · rintro rfl
    rfl

theorem nested_adapt_eq_ok {ε' : Type} {x : ExceptT ε Option α} {f : ε → ε'} {a : α} :
    (ExceptT.adapt f x).run = some (.ok a) ↔ x.run = some (.ok a) := by
  change Option.map (Except.mapError f) x.run = some (.ok a) ↔ x.run = some (.ok a)
  rw [Option.map_eq_some_iff]
  constructor
  · rintro ⟨result, ran, same⟩
    rw [ran, except_mapError_eq_ok.mp same]
  · intro ran
    exact ⟨.ok a, ran, rfl⟩

/-! ## Computations that come to an end

`Ends` is total correctness with exceptions: the computation has a result, a postcondition holds of what it returns,
and it returns when a condition holds.
-/

/-- The computation comes to an end, with a value that satisfies the postcondition or with an exception, and without
an exception when it is safe. -/
def Ends (x : ExceptT ε Option α) (safe : Prop) (post : α → Prop) : Prop :=
  ∃ result, x.run = some result ∧ (∀ a, result = .ok a → post a) ∧ (safe → ∃ a, result = .ok a)

section Ends

variable {x : ExceptT ε Option α} {safe safe' : Prop} {post : α → Prop} {post' : β → Prop}

theorem Ends.pure {a : α} (holds : post a) : Ends (pure a : ExceptT ε Option α) safe post :=
  ⟨.ok a, rfl, fun _ same => Except.ok.inj same ▸ holds, fun _ => ⟨a, rfl⟩⟩

theorem Ends.except {result : Except ε α} (holds : ∀ a, result = .ok a → post a) (returns : safe → ∃ a, result = .ok a) :
    Ends (ExceptT.mk (some result)) safe post :=
  ⟨result, rfl, holds, returns⟩

theorem Ends.ok {result : Except ε α} {a : α} (done : result = .ok a) : Ends (ExceptT.mk (some result)) safe (· = a) :=
  .except (fun _ same => (Except.ok.inj (done.symm.trans same)).symm) fun _ => ⟨a, done⟩

/-- In a sequence, the second part starts from what the first has returned. -/
theorem Ends.bind {f : α → ExceptT ε Option β} (first : Ends x safe post)
    (second : ∀ a, x.run = some (.ok a) → post a → Ends (f a) safe post') : Ends (x >>= f) safe post' := by
  obtain ⟨result, ran, holds, returns⟩ := first
  cases result with
  | ok a =>
    obtain ⟨final, ran', holds', returns'⟩ := second a ran (holds a rfl)
    exact ⟨final, (nested_bind_ok ran).trans ran', holds', returns'⟩
  | error e =>
    have failed : (x >>= f).run = some (.error e) := by
      change (x.run.bind fun result => ExceptT.bindCont f result) = _
      rw [ran]
      rfl
    refine ⟨.error e, failed, ?_, fun sure => ?_⟩
    · intro b same
      cases same
    · obtain ⟨a, same⟩ := returns sure
      cases same

theorem Ends.imp {post' : α → Prop} (ends : Ends x safe post) (safer : safe' → safe) (weaker : ∀ a, post a → post' a) :
    Ends x safe' post' := by
  obtain ⟨result, ran, holds, returns⟩ := ends
  exact ⟨result, ran, fun a same => weaker a (holds a same), fun holds => returns (safer holds)⟩

/-- Exceptions may be renamed. -/
theorem Ends.adapt {ε' : Type} {f : ε → ε'} (ends : Ends x safe post) : Ends (ExceptT.adapt f x) safe post := by
  obtain ⟨result, ran, holds, returns⟩ := ends
  refine ⟨result.mapError f, ?_, fun a same => holds a (except_mapError_eq_ok.mp same), fun sure => ?_⟩
  · change Option.map (Except.mapError f) x.run = _
    rw [ran]
    rfl
  · obtain ⟨a, same⟩ := returns sure
    exact ⟨a, except_mapError_eq_ok.mpr same⟩

end Ends

/-! ## What a program leaves alone -/

/-- The state a program ends in, whether it returns or throws. -/
def final : EStateM.Result ε σ α → σ
  | .ok _ s => s
  | .error _ s => s

@[simp] theorem final_ok (a : α) (s : σ) : final (.ok a s : EStateM.Result ε σ α) = s := rfl

@[simp] theorem final_error (e : ε) (s : σ) : final (.error e s : EStateM.Result ε σ α) = s := rfl

/-- A program that never changes a part of the state. -/
def Keeps {τ : Type} (view : σ → τ) (x : EStateM ε σ α) : Prop :=
  ∀ s, view (final (x s)) = view s

variable {τ : Type} {view : σ → τ}

theorem keeps_pure (a : α) : Keeps view (pure a : EStateM ε σ α) := fun _ => rfl

theorem keeps_throw (e : ε) : Keeps view (throw e : EStateM ε σ α) := fun _ => rfl

theorem keeps_get : Keeps view (get : EStateM ε σ σ) := fun _ => rfl

theorem keeps_bind {x : EStateM ε σ α} {f : α → EStateM ε σ β} (first : Keeps view x)
    (second : ∀ a, Keeps view (f a)) : Keeps view (x >>= f) := by
  intro s
  have start := first s
  rw [bind_apply]
  cases result : x s with
  | ok a s' =>
    rw [result] at start
    exact (second a s').trans start
  | error e s' =>
    rw [result] at start
    exact start

/-- A step may rely on what was kept before it. -/
theorem kept_bind {x : EStateM ε σ α} {f : α → EStateM ε σ β} {s : σ} (first : Keeps view x)
    (second : ∀ a s', view s' = view s → view (final (f a s')) = view s') : view (final ((x >>= f) s)) = view s := by
  have start := first s
  rw [bind_apply]
  cases result : x s with
  | ok a s' =>
    rw [result] at start
    exact (second a s' start).trans start
  | error e s' =>
    rw [result] at start
    exact start

/-- A step that continues from the state it reads may rely on it. -/
theorem keeps_get_bind {f : σ → EStateM ε σ β} (next : ∀ s, view (final (f s s)) = view s) :
    Keeps view (get >>= f) := next

/-- What is kept also keeps every part of it. -/
theorem keeps_part {ρ : Type} {x : EStateM ε σ α} (kept : Keeps view x) (part : τ → ρ) :
    Keeps (fun s => part (view s)) x := fun s => congrArg part (kept s)

/-- A program that only looks at the state. -/
theorem keeps_all_cases {x : EStateM ε σ α} (kept : Keeps id x) (s : σ) :
    (∃ a, x s = .ok a s) ∨ ∃ e, x s = .error e s := by
  have same := kept s
  cases result : x s with
  | ok a after =>
    rw [result] at same
    exact .inl ⟨a, congrArg (EStateM.Result.ok a) same⟩
  | error e after =>
    rw [result] at same
    exact .inr ⟨e, congrArg (EStateM.Result.error e) same⟩

theorem keeps_ok {x : EStateM ε σ α} (kept : Keeps view x) {s s' : σ} {a : α} (success : x s = .ok a s') :
    view s' = view s := by
  have same := kept s
  rw [success] at same
  exact same

theorem keeps_all_ok {x : EStateM ε σ α} (kept : Keeps id x) {s s' : σ} {a : α} (success : x s = .ok a s') : s' = s :=
  keeps_ok kept success

theorem keeps_ite {c : Prop} [Decidable c] {x y : EStateM ε σ α} (yes : Keeps view x) (no : Keeps view y) :
    Keeps view (if c then x else y) := by
  split_ifs
  · exact yes
  · exact no

theorem keeps_modify {update : σ → σ} (same : ∀ s, view (update s) = view s) :
    Keeps view (modify update : EStateM ε σ PUnit) := same

/-! ## Invariants -/

/-- A program that keeps a property of the state, whether it returns or throws. -/
def Preserves (P : σ → Prop) (x : EStateM ε σ α) : Prop :=
  ∀ s, P s → P (final (x s))

variable {P : σ → Prop}

/-- A property of a part that a program never changes. -/
theorem preserves_of_keeps {Q : τ → Prop} {x : EStateM ε σ α} (kept : Keeps view x) :
    Preserves (fun s => Q (view s)) x := by
  intro s holds
  rw [kept s]
  exact holds

theorem preserves_pure (a : α) : Preserves P (pure a : EStateM ε σ α) := fun _ holds => holds

theorem preserves_throw (e : ε) : Preserves P (throw e : EStateM ε σ α) := fun _ holds => holds

theorem preserves_bind {x : EStateM ε σ α} {f : α → EStateM ε σ β} (first : Preserves P x)
    (second : ∀ a, Preserves P (f a)) : Preserves P (x >>= f) := by
  intro s holds
  have start := first s holds
  rw [bind_apply]
  cases result : x s with
  | ok a s' =>
    rw [result] at start
    exact second a s' start
  | error e s' =>
    rw [result] at start
    exact start

/-- A step may rely on what the step before it returned. -/
theorem preserves_bind_result {x : EStateM ε σ α} {f : α → EStateM ε σ β} (first : Preserves P x)
    (second : ∀ a s s', x s = .ok a s' → Preserves P (f a)) : Preserves P (x >>= f) := by
  intro s holds
  have start := first s holds
  rw [bind_apply]
  cases result : x s with
  | ok a s' =>
    rw [result] at start
    exact second a s s' result s' start
  | error e s' =>
    rw [result] at start
    exact start

/-- A step that continues from the state it reads may rely on the property. -/
theorem preserves_get_bind {f : σ → EStateM ε σ β} (next : ∀ s, P s → Preserves P (f s)) :
    Preserves P (get >>= f) := fun s holds => next s holds s holds

theorem preserves_ite {c : Prop} [Decidable c] {x y : EStateM ε σ α} (yes : c → Preserves P x)
    (no : ¬ c → Preserves P y) : Preserves P (if c then x else y) := by
  split_ifs with known
  · exact yes known
  · exact no known

theorem preserves_tryCatch {x : EStateM ε σ α} {handle : ε → EStateM ε σ α} (body : Preserves P x)
    (handler : ∀ e, Preserves P (handle e)) : Preserves P (tryCatch x handle) := by
  intro s holds
  have start := body s holds
  rw [tryCatch_apply]
  cases result : x s with
  | ok a s' =>
    rw [result] at start
    exact start
  | error e s' =>
    rw [result] at start
    exact handler e s' start

/-! ## Which exception a program ends with -/

/-- The exception a program ended with; none when it returned. -/
def thrown : EStateM.Result ε σ α → Option ε
  | .ok _ _ => none
  | .error e _ => some e

@[simp] theorem thrown_ok (a : α) (s : σ) : thrown (.ok a s : EStateM.Result ε σ α) = none := rfl

@[simp] theorem thrown_error (e : ε) (s : σ) : thrown (.error e s : EStateM.Result ε σ α) = some e := rfl

theorem thrown_eq_none {result : EStateM.Result ε σ α} (returned : thrown result = none) : ∃ a s, result = .ok a s := by
  cases result with
  | ok a s => exact ⟨a, s, rfl⟩
  | error e s => cases returned

theorem thrown_eq_some {result : EStateM.Result ε σ α} {e : ε} (failed : thrown result = some e) :
    ∃ s, result = .error e s := by
  cases result with
  | ok a s => cases failed
  | error e' s =>
    cases failed
    exact ⟨s, rfl⟩

/-- A sequence ends with the exception of its first part, or else with that of the rest. -/
theorem thrown_bind {x : EStateM ε σ α} {f : α → EStateM ε σ β} {s : σ} {rest : Option ε}
    (next : ∀ a s', x s = .ok a s' → thrown (f a s') = rest) : thrown ((x >>= f) s) = (thrown (x s)).or rest := by
  rw [bind_apply]
  cases result : x s with
  | ok a s' => exact next a s' result
  | error e s' => rfl

/-- The rest never throws. -/
theorem thrown_bind_safe {x : EStateM ε σ α} {f : α → EStateM ε σ β} {s : σ}
    (safe : ∀ a s', x s = .ok a s' → thrown (f a s') = none) : thrown ((x >>= f) s) = thrown (x s) := by
  rw [thrown_bind safe, Option.or_none]

theorem thrown_bind_ok {x : EStateM ε σ α} {f : α → EStateM ε σ β} {s s' : σ} {a : α} (done : x s = .ok a s') :
    thrown ((x >>= f) s) = thrown (f a s') := by
  rw [bind_ok done]

/-- A program that never throws. -/
def Returns (x : EStateM ε σ α) : Prop :=
  ∀ s, thrown (x s) = none

theorem returns_pure (a : α) : Returns (pure a : EStateM ε σ α) := fun _ => rfl

theorem returns_get : Returns (get : EStateM ε σ σ) := fun _ => rfl

theorem returns_modify (update : σ → σ) : Returns (modify update : EStateM ε σ PUnit) := fun _ => rfl

theorem returns_bind {x : EStateM ε σ α} {f : α → EStateM ε σ β} (first : Returns x) (second : ∀ a, Returns (f a)) :
    Returns (x >>= f) := by
  intro s
  rw [thrown_bind_safe fun a s' _ => second a s']
  exact first s

theorem returns_ite {c : Prop} [Decidable c] {x y : EStateM ε σ α} (yes : Returns x) (no : Returns y) :
    Returns (if c then x else y) := by
  split_ifs
  · exact yes
  · exact no

/-- A program whose exceptions are all of a kind. -/
def ThrowsOnly (kind : ε → Prop) (x : EStateM ε σ α) : Prop :=
  ∀ s e, thrown (x s) = some e → kind e

variable {kind : ε → Prop}

theorem throwsOnly_throw {e : ε} (known : kind e) : ThrowsOnly kind (throw e : EStateM ε σ α) := by
  intro s e' failed
  cases failed
  exact known

theorem throwsOnly_of_returns {x : EStateM ε σ α} (returns : Returns x) : ThrowsOnly kind x := by
  intro s e failed
  rw [returns s] at failed
  cases failed

theorem throwsOnly_pure (a : α) : ThrowsOnly kind (pure a : EStateM ε σ α) := throwsOnly_of_returns (returns_pure a)

theorem throwsOnly_bind {x : EStateM ε σ α} {f : α → EStateM ε σ β} (first : ThrowsOnly kind x)
    (second : ∀ a, ThrowsOnly kind (f a)) : ThrowsOnly kind (x >>= f) := by
  intro s e failed
  have start := first s
  rw [bind_apply] at failed
  cases result : x s with
  | ok a s' =>
    rw [result] at failed
    exact second a s' e failed
  | error e' s' =>
    rw [result] at start failed
    cases failed
    exact start e rfl

/-- A step that continues from the state it reads. -/
theorem throwsOnly_get_bind {f : σ → EStateM ε σ β} (next : ∀ s, ThrowsOnly kind (f s)) : ThrowsOnly kind (get >>= f) :=
  fun s => next s s

theorem throwsOnly_ite {c : Prop} [Decidable c] {x y : EStateM ε σ α} (yes : ThrowsOnly kind x)
    (no : ThrowsOnly kind y) : ThrowsOnly kind (if c then x else y) := by
  split_ifs
  · exact yes
  · exact no

/-- A program that ended in an exception of a kind. -/
def EndsIn (kind : ε → Prop) (result : EStateM.Result ε σ α) : Prop :=
  ∃ e, thrown result = some e ∧ kind e

@[simp] theorem endsIn_ok (a : α) (s : σ) : ¬ EndsIn kind (.ok a s : EStateM.Result ε σ α) := by
  rintro ⟨e, failed, -⟩
  cases failed

@[simp] theorem endsIn_error (e : ε) (s : σ) : EndsIn kind (.error e s : EStateM.Result ε σ α) ↔ kind e := by
  constructor
  · rintro ⟨e', failed, known⟩
    cases failed
    exact known
  · exact fun known => ⟨e, rfl, known⟩

/-- A sequence ends in such an exception in its first part, or in its second part after it. -/
theorem endsIn_bind {x : EStateM ε σ α} {f : α → EStateM ε σ β} {s : σ} :
    EndsIn kind ((x >>= f) s) ↔ EndsIn kind (x s) ∨ ∃ a s', x s = .ok a s' ∧ EndsIn kind (f a s') := by
  rw [bind_apply]
  cases x s with
  | ok a s' => simp
  | error e s' => simp

theorem not_endsIn_of_throwsOnly {x : EStateM ε σ α} (only : ThrowsOnly (fun e => ¬ kind e) x) (s : σ) :
    ¬ EndsIn kind (x s) := by
  rintro ⟨e, failed, known⟩
  exact only s e failed known

/-! ## Exceptions that undo nothing -/

/-- From this state, the program throws one of these exceptions only with a part of the state as it was. -/
def Atomic (view : σ → τ) (reported : ε → Prop) (x : EStateM ε σ α) (s : σ) : Prop :=
  ∀ e s', x s = .error e s' → reported e → view s' = view s

variable {reported : ε → Prop}

theorem atomic_of_keeps {x : EStateM ε σ α} (kept : Keeps view x) (s : σ) : Atomic view reported x s := by
  intro e s' failed _
  have same := kept s
  rw [failed] at same
  exact same

theorem atomic_of_ok {x : EStateM ε σ α} {s s' : σ} {a : α} (done : x s = .ok a s') : Atomic view reported x s := by
  intro e s'' failed
  rw [done] at failed
  cases failed

/-- What comes first may fail as long as it is atomic, and passes its state on unchanged. -/
theorem atomic_bind {x : EStateM ε σ α} {f : α → EStateM ε σ β} {s : σ} (first : Keeps view x)
    (second : ∀ a s', x s = .ok a s' → Atomic view reported (f a) s') : Atomic view reported (x >>= f) s := by
  intro e s'' failed report
  have start := first s
  rcases bind_eq_error.mp failed with early | ⟨a, s', done, late⟩
  · rw [early] at start
    exact start
  · rw [done] at start
    exact (second a s' done e s'' late report).trans start

/-- What comes last may not fail any more. -/
theorem atomic_bind_last {x : EStateM ε σ α} {f : α → EStateM ε σ β} {s : σ} (first : Atomic view reported x s)
    (last : ∀ a s', x s = .ok a s' → ∀ e s'', f a s' = .error e s'' → ¬ reported e) :
    Atomic view reported (x >>= f) s := by
  intro e s'' failed report
  rcases bind_eq_error.mp failed with early | ⟨a, s', done, late⟩
  · exact first e s'' early report
  · exact absurd report (last a s' done e s'' late)

/-! ## What a program does not look at -/

/-- Change the state a program ended in. -/
def mapState (change : σ → σ) : EStateM.Result ε σ α → EStateM.Result ε σ α
  | .ok a s => .ok a (change s)
  | .error e s => .error e (change s)

/-- From this state, a change made before the program is the same change made after it: the program
neither looks at what is changed nor overwrites it. -/
def Commutes (change : σ → σ) (x : EStateM ε σ α) (s : σ) : Prop :=
  x (change s) = mapState change (x s)

variable {change : σ → σ} {s : σ}

theorem commutes_pure (a : α) : Commutes change (pure a : EStateM ε σ α) s := rfl

theorem commutes_throw (e : ε) : Commutes change (throw e : EStateM ε σ α) s := rfl

theorem commutes_modify {update : σ → σ} (commute : update (change s) = change (update s)) :
    Commutes change (modify update : EStateM ε σ PUnit) s := by
  rw [Commutes, modify_apply, modify_apply, commute]
  rfl

theorem commutes_bind {x : EStateM ε σ α} {f : α → EStateM ε σ β} (first : Commutes change x s)
    (second : ∀ a s', x s = .ok a s' → Commutes change (f a) s') : Commutes change (x >>= f) s := by
  rw [Commutes, bind_apply, bind_apply, first]
  cases result : x s with
  | ok a s' => exact second a s' result
  | error e s' => rfl

/-- A step that continues from a part of the state that the change leaves alone. -/
theorem commutes_get_bind {f : σ → EStateM ε σ β} (same : f (change s) = f s) (next : Commutes change (f s) s) :
    Commutes change (get >>= f) s := by
  rw [Commutes, bind_apply, bind_apply]
  simp only [get_apply, same]
  exact next

theorem commutes_ite {c : Prop} [Decidable c] {x y : EStateM ε σ α} (yes : c → Commutes change x s)
    (no : ¬ c → Commutes change y s) : Commutes change (if c then x else y) s := by
  split_ifs with known
  · exact yes known
  · exact no known

theorem commutes_tryCatch {x : EStateM ε σ α} {handle : ε → EStateM ε σ α} (body : Commutes change x s)
    (handler : ∀ e s', x s = .error e s' → Commutes change (handle e) s') : Commutes change (tryCatch x handle) s := by
  rw [Commutes, tryCatch_apply, tryCatch_apply, body]
  cases result : x s with
  | ok a s' => rfl
  | error e s' => exact handler e s' result

/-! ## Programs that agree -/

/-- Two outcomes with the same state, and related results or the same throw. -/
inductive SameOutcome (related : α → β → Prop) : EStateM.Result ε σ α → EStateM.Result ε σ β → Prop where
  | ok {a : α} {b : β} {s : σ} (same : related a b) : SameOutcome related (.ok a s) (.ok b s)
  | error {e : ε} {s : σ} : SameOutcome related (.error e s) (.error e s)

/-- Two programs with the same effect and related results. -/
def Agrees (related : α → β → Prop) (x : EStateM ε σ α) (y : EStateM ε σ β) : Prop :=
  ∀ s, SameOutcome related (x s) (y s)

section

variable {γ δ : Type} {related : α → β → Prop} {following : γ → δ → Prop}

theorem agrees_refl (x : EStateM ε σ α) : Agrees Eq x x := by
  intro s
  cases x s with
  | ok a s' => exact .ok rfl
  | error e s' => exact .error

theorem agrees_pure {a : α} {b : β} (same : related a b) :
    Agrees related (pure a : EStateM ε σ α) (pure b) := fun _ => .ok same

theorem agrees_throw (e : ε) : Agrees related (throw e : EStateM ε σ α) (throw e : EStateM ε σ β) := fun _ => .error

theorem agrees_bind {x : EStateM ε σ α} {y : EStateM ε σ β} {f : α → EStateM ε σ γ} {g : β → EStateM ε σ δ}
    (first : Agrees related x y) (second : ∀ a b, related a b → Agrees following (f a) (g b)) :
    Agrees following (x >>= f) (y >>= g) := by
  intro s
  have same := first s
  rw [bind_apply, bind_apply]
  generalize x s = left at same ⊢
  generalize y s = right at same ⊢
  cases same with
  | ok same => exact second _ _ same _
  | error => exact .error

/-- The second program may go on when the first is done. -/
theorem agrees_bind_right {x : EStateM ε σ α} {y : EStateM ε σ β} {g : β → EStateM ε σ δ} {following : α → δ → Prop}
    (first : Agrees related x y) (second : ∀ a b, related a b → Agrees following (pure a) (g b)) :
    Agrees following x (y >>= g) := by
  rw [← bind_pure x]
  exact agrees_bind first second

theorem agrees_ite {c : Prop} [Decidable c] {x x' : EStateM ε σ α} {y y' : EStateM ε σ β}
    (yes : Agrees related x y) (no : Agrees related x' y') :
    Agrees related (if c then x else x') (if c then y else y') := by
  split_ifs
  · exact yes
  · exact no

end

end Effects
