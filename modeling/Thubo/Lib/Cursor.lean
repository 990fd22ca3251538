/-!
# Cursor programs and the parsers they refine

A cursor program runs on a mutable position.  It ends in one of three ways:
with a value, with an ordinary error that keeps the position it reached, or
in a fault, when an operation with an unchecked precondition was reached with
that precondition violated.

The second half relates cursor programs to parsers on plain lists.  A program
refines a parser when it returns what the parser returns on the unread input,
leaves exactly the parser's suffix unread, fails where the parser fails, and
never faults.  The rules compose along `bind`, so a decoder is verified once
against its parser, for every cursor with a lawful `rest`.
-/

namespace Thubo

/-- The ways in which an unchecked precondition can be violated. -/
inductive Fault where
  /-- An unchecked index or range lies outside the slice. -/
  | bounds
  /-- A byte reinterpreted as an enumeration is not a declared discriminant. -/
  | discriminant
  /-- Unsigned arithmetic leaves the range of its type. -/
  | arithmetic
deriving DecidableEq, Repr

/-- The result of one cursor program on the state `σ`. -/
inductive Outcome (σ α : Type) where
  | ok (value : α) (state : σ)
  | err (state : σ)
  | fault (fault : Fault)
deriving DecidableEq, Repr

/-- A program over a cursor of type `σ`. -/
def Cursor (σ α : Type) : Type :=
  σ → Outcome σ α

namespace Outcome

/-- The outcome is one of the ordinary ones. -/
def Ordinary {σ α : Type} : Outcome σ α → Prop
  | .ok _ _ => True
  | .err _ => True
  | .fault _ => False

instance {σ α : Type} (outcome : Outcome σ α) :
    Decidable outcome.Ordinary := by
  cases outcome <;> unfold Ordinary <;> infer_instance

/-- The state that an ordinary outcome leaves. -/
def leaves {σ α : Type} : Outcome σ α → Option σ
  | .ok _ state => some state
  | .err state => some state
  | .fault _ => none

end Outcome

namespace Cursor

variable {σ α β : Type}

/-- Return a value and leave the cursor alone. -/
protected def pure (value : α) : Cursor σ α :=
  fun state => .ok value state

/-- Run `first`, then `next` from the position `first` reached. -/
protected def bind (first : Cursor σ α) (next : α → Cursor σ β) :
    Cursor σ β :=
  fun state =>
    match first state with
    | .ok value state => next value state
    | .err state => .err state
    | .fault fault => .fault fault

instance : Monad (Cursor σ) where
  pure := Cursor.pure
  bind := Cursor.bind

/-- The ordinary failure that keeps the position. -/
def fail : Cursor σ α :=
  fun state => .err state

/-- Run `second` from the position left by a failure of `first`. -/
def orElse (first second : Cursor σ α) : Cursor σ α :=
  fun state =>
    match first state with
    | .ok value state => .ok value state
    | .err state => second state
    | .fault fault => .fault fault

/-- The current state. -/
def get : Cursor σ σ :=
  fun state => .ok state state

/-- Replace the state. -/
def set (state : σ) : Cursor σ Unit :=
  fun _ => .ok () state

/-- The value of an option, or the ordinary failure. -/
def ofOption : Option α → Cursor σ α
  | some value => Cursor.pure value
  | none => fail

/-- A pure computation that may fault. -/
def lift (value : Except Fault α) : Cursor σ α :=
  fun state =>
    match value with
    | .ok value => .ok value state
    | .error fault => .fault fault

@[simp]
theorem pure_apply (value : α) (state : σ) :
    (pure value : Cursor σ α) state = .ok value state :=
  rfl

@[simp]
theorem pure_bind (value : α) (next : α → Cursor σ β) (state : σ) :
    ((pure value : Cursor σ α) >>= next) state = next value state :=
  rfl

@[simp]
theorem get_bind (next : σ → Cursor σ β) (state : σ) :
    ((get : Cursor σ σ) >>= next) state = next state state :=
  rfl

@[simp]
theorem set_bind (after : σ) (next : Unit → Cursor σ β) (state : σ) :
    ((set after : Cursor σ Unit) >>= next) state = next () after :=
  rfl

@[simp]
theorem fail_bind (next : α → Cursor σ β) (state : σ) :
    ((fail : Cursor σ α) >>= next) state = .err state :=
  rfl

theorem bind_apply (first : Cursor σ α) (next : α → Cursor σ β)
    (state : σ) :
    (first >>= next) state =
      match first state with
      | .ok value state => next value state
      | .err state => .err state
      | .fault fault => .fault fault :=
  rfl

theorem bind_ok {first : Cursor σ α} {next : α → Cursor σ β}
    {state after : σ} {value : α}
    (run : first state = .ok value after) :
    (first >>= next) state = next value after := by
  rw [bind_apply, run]

theorem bind_err {first : Cursor σ α} {next : α → Cursor σ β}
    {state after : σ}
    (run : first state = .err after) :
    (first >>= next) state = .err after := by
  rw [bind_apply, run]

@[simp]
theorem fail_apply (state : σ) :
    (fail : Cursor σ α) state = .err state :=
  rfl

theorem orElse_ok {first second : Cursor σ α} {state after : σ} {value : α}
    (run : first state = .ok value after) :
    orElse first second state = .ok value after := by
  simp only [orElse, run]

theorem orElse_err {first second : Cursor σ α} {state after : σ}
    (run : first state = .err after) :
    orElse first second state = second after := by
  simp only [orElse, run]

@[simp]
theorem lift_ok (value : α) :
    (lift (.ok value) : Cursor σ α) = pure value :=
  rfl

@[simp]
theorem ofOption_some (value : α) :
    (ofOption (some value) : Cursor σ α) = pure value :=
  rfl

@[simp]
theorem ofOption_none :
    (ofOption none : Cursor σ α) = fail :=
  rfl

end Cursor

/-! ## Parsers on plain lists -/

/-- A parser consumes a prefix of its input and returns the unread suffix. -/
abbrev Parser (τ α : Type) : Type :=
  StateT (List τ) Option α

namespace Parser

variable {τ α β : Type}

/-- Take the next element. -/
def next : Parser τ τ
  | [] => none
  | head :: rest => some (head, rest)

/-- Take exactly `count` elements. -/
def takeExactly (count : Nat) : Parser τ (List τ) :=
  fun input =>
    if count ≤ input.length then
      some (input.take count, input.drop count)
    else
      none

@[simp]
theorem pure_apply (value : α) (input : List τ) :
    (pure value : Parser τ α) input = some (value, input) :=
  rfl

@[simp]
theorem failure_apply (input : List τ) :
    (failure : Parser τ α) input = none :=
  rfl

theorem bind_apply (first : Parser τ α) (next : α → Parser τ β)
    (input : List τ) :
    (first >>= next) input =
      (first input).bind fun result => next result.1 result.2 :=
  rfl

theorem bind_some {first : Parser τ α} {next : α → Parser τ β}
    {input rest : List τ} {value : α}
    (parsed : first input = some (value, rest)) :
    (first >>= next) input = next value rest := by
  rw [bind_apply, parsed, Option.bind_some]

theorem bind_none {first : Parser τ α} {next : α → Parser τ β}
    {input : List τ}
    (parsed : first input = none) :
    (first >>= next) input = none := by
  rw [bind_apply, parsed, Option.bind_none]

/-- A parser that succeeds has run its first part. -/
theorem bind_eq_some {first : Parser τ α} {next : α → Parser τ β}
    {input rest : List τ} {value : β}
    (parsed : (first >>= next) input = some (value, rest)) :
    ∃ middle left, first input = some (middle, left) ∧
      next middle left = some (value, rest) := by
  rw [bind_apply] at parsed
  rcases Option.bind_eq_some_iff.1 parsed with ⟨⟨middle, left⟩, ran, later⟩
  exact ⟨middle, left, ran, later⟩

theorem next_eq_some {input rest : List τ} {head : τ}
    (parsed : (next : Parser τ τ) input = some (head, rest)) :
    input = head :: rest := by
  cases input with
  | nil => cases parsed
  | cons first later =>
      cases parsed
      rfl

@[simp]
theorem next_cons (head : τ) (rest : List τ) :
    (next : Parser τ τ) (head :: rest) = some (head, rest) :=
  rfl

theorem takeExactly_append (front rest : List τ) :
    takeExactly front.length (front ++ rest) = some (front, rest) := by
  simp [takeExactly]

end Parser

/-! ## Refinement -/

/--
How a cursor of type `σ` presents its unread input: which positions are in
order, and what is left to read from them.
-/
structure Presentation (σ τ : Type) where
  valid : σ → Prop
  rest : σ → List τ

namespace Presentation

variable {σ τ α β γ δ : Type}

/-- The outcome of a program agrees with a parser result. -/
def Agrees (presentation : Presentation σ τ) (relation : α → β → Prop) :
    Outcome σ α → Option (β × List τ) → Prop
  | .ok value state, some (result, rest) =>
      relation value result ∧ presentation.valid state ∧
        presentation.rest state = rest
  | .err _, none => True
  | _, _ => False

/-- The program refines the parser from every valid position. -/
def Refines (presentation : Presentation σ τ) (relation : α → β → Prop)
    (program : Cursor σ α) (parser : Parser τ β) : Prop :=
  ∀ state, presentation.valid state →
    presentation.Agrees relation (program state)
      (parser (presentation.rest state))

/--
The outcome of a shortcut from `start`: where it succeeds the parser does
too, and where it fails it has consumed nothing.
-/
def Attempted (presentation : Presentation σ τ) (relation : α → β → Prop)
    (start : σ) : Outcome σ α → Option (β × List τ) → Prop
  | .ok value state, parsed =>
      presentation.Agrees relation (.ok value state) parsed
  | .err state, _ =>
      presentation.valid state ∧
        presentation.rest state = presentation.rest start
  | .fault _, _ => False

/-- The program is a shortcut for the parser. -/
def Attempts (presentation : Presentation σ τ) (relation : α → β → Prop)
    (program : Cursor σ α) (parser : Parser τ β) : Prop :=
  ∀ state, presentation.valid state →
    presentation.Attempted relation state (program state)
      (parser (presentation.rest state))

variable {presentation : Presentation σ τ}

theorem Refines.of_pure {relation : α → β → Prop} {value : α} {result : β}
    (related : relation value result) :
    presentation.Refines relation (Pure.pure value) (Pure.pure result) :=
  fun _ valid => ⟨related, valid, rfl⟩

theorem Refines.of_fail {relation : α → β → Prop} :
    presentation.Refines relation Cursor.fail failure :=
  fun _ _ => True.intro

/-- Refinement composes along `bind`. -/
theorem Refines.bind {relation : α → β → Prop} {relation' : γ → δ → Prop}
    {program : Cursor σ α} {parser : Parser τ β}
    {next : α → Cursor σ γ} {next' : β → Parser τ δ}
    (first : presentation.Refines relation program parser)
    (second : ∀ value result, relation value result →
      presentation.Refines relation' (next value) (next' result)) :
    presentation.Refines relation' (program >>= next) (parser >>= next') := by
  intro state valid
  have agrees := first state valid
  rw [Cursor.bind_apply, Parser.bind_apply]
  cases run : program state with
  | ok value after =>
      cases parsed : parser (presentation.rest state) with
      | none => simp [run, parsed, Agrees] at agrees
      | some result =>
          rw [run, parsed] at agrees
          obtain ⟨related, afterValid, restEq⟩ := agrees
          simpa [restEq] using second value result.1 related after afterValid
  | err after =>
      cases parsed : parser (presentation.rest state) with
      | none => simp [Agrees]
      | some result => simp [run, parsed, Agrees] at agrees
  | fault fault => simp [run, Agrees] at agrees

/-- A shortcut may be tried before a program that refines the same parser. -/
theorem Refines.orElse {relation : α → β → Prop}
    {first second : Cursor σ α} {parser : Parser τ β}
    (shortcut : presentation.Attempts relation first parser)
    (fallback : presentation.Refines relation second parser) :
    presentation.Refines relation (Cursor.orElse first second) parser := by
  intro state valid
  have attempt := shortcut state valid
  cases run : first state with
  | ok value after =>
      rw [run] at attempt
      rw [Cursor.orElse_ok run]
      exact attempt
  | err after =>
      rw [run] at attempt
      rw [Cursor.orElse_err run, ← attempt.2]
      exact fallback after attempt.1
  | fault fault => simp [run, Attempted] at attempt

/-- A shortcut followed by a pure step is a shortcut. -/
theorem Attempts.map {relation : α → β → Prop} {relation' : γ → β → Prop}
    {program : Cursor σ α} {parser : Parser τ β} {next : α → γ}
    (attempts : presentation.Attempts relation program parser)
    (related : ∀ value result, relation value result →
      relation' (next value) result) :
    presentation.Attempts relation'
      (program >>= fun value => Pure.pure (next value)) parser := by
  intro state valid
  have attempt := attempts state valid
  rw [Cursor.bind_apply]
  cases run : program state with
  | ok value after =>
      rw [run] at attempt
      cases parsed : parser (presentation.rest state) with
      | none => simp [parsed, Attempted, Agrees] at attempt
      | some result =>
          rw [parsed] at attempt
          exact ⟨related _ _ attempt.1, attempt.2⟩
  | err after =>
      rw [run] at attempt
      exact attempt
  | fault fault => simp [run, Attempted] at attempt

/-- Results may be related more coarsely. -/
theorem Refines.map {relation : α → β → Prop} {relation' : γ → β → Prop}
    {program : Cursor σ α} {parser : Parser τ β} {next : α → γ}
    (refines : presentation.Refines relation program parser)
    (related : ∀ value result, relation value result →
      relation' (next value) result) :
    presentation.Refines relation'
      (program >>= fun value => Pure.pure (next value)) parser := by
  intro state valid
  have agrees := refines state valid
  rw [Cursor.bind_apply]
  cases run : program state with
  | ok value after =>
      rw [run] at agrees
      cases parsed : parser (presentation.rest state) with
      | none => simp [parsed, Agrees] at agrees
      | some result =>
          rw [parsed] at agrees
          exact ⟨related _ _ agrees.1, agrees.2⟩
  | err after =>
      cases parsed : parser (presentation.rest state) with
      | none => simp [Agrees]
      | some result => simp [run, parsed, Agrees] at agrees
  | fault fault => simp [run, Agrees] at agrees

/-- What a refining program does where its parser succeeds. -/
theorem Refines.run_ok {relation : α → β → Prop}
    {program : Cursor σ α} {parser : Parser τ β}
    (refines : presentation.Refines relation program parser)
    {state : σ} (valid : presentation.valid state)
    {result : β} {rest : List τ}
    (parsed : parser (presentation.rest state) = some (result, rest)) :
    ∃ value after, program state = .ok value after ∧
      relation value result ∧ presentation.valid after ∧
        presentation.rest after = rest := by
  have agrees := refines state valid
  rw [parsed] at agrees
  cases run : program state with
  | ok value after =>
      rw [run] at agrees
      exact ⟨value, after, rfl, agrees⟩
  | err after => simp [run, Agrees] at agrees
  | fault fault => simp [run, Agrees] at agrees

/-- What a refining program does where its parser fails. -/
theorem Refines.run_err {relation : α → β → Prop}
    {program : Cursor σ α} {parser : Parser τ β}
    (refines : presentation.Refines relation program parser)
    {state : σ} (valid : presentation.valid state)
    (parsed : parser (presentation.rest state) = none) :
    ∃ after, program state = .err after := by
  have agrees := refines state valid
  rw [parsed] at agrees
  cases run : program state with
  | ok value after => simp [run, Agrees] at agrees
  | err after => exact ⟨after, rfl⟩
  | fault fault => simp [run, Agrees] at agrees

/-- Where a refining program succeeds, its parser does. -/
theorem Refines.parsed {relation : α → β → Prop}
    {program : Cursor σ α} {parser : Parser τ β}
    (refines : presentation.Refines relation program parser)
    {state : σ} (valid : presentation.valid state) {value : α} {after : σ}
    (ran : program state = .ok value after) :
    ∃ result, parser (presentation.rest state) =
        some (result, presentation.rest after) ∧
      relation value result ∧ presentation.valid after := by
  have agrees := refines state valid
  rw [ran] at agrees
  cases parsed : parser (presentation.rest state) with
  | none => simp [parsed, Agrees] at agrees
  | some result =>
      rcases result with ⟨result, rest⟩
      rw [parsed] at agrees
      rcases agrees with ⟨related, stays, left⟩
      exact ⟨result, by rw [left], related, stays⟩

/-- A refining program never faults. -/
theorem Refines.ordinary {relation : α → β → Prop}
    {program : Cursor σ α} {parser : Parser τ β}
    (refines : presentation.Refines relation program parser)
    {state : σ} (valid : presentation.valid state) :
    (program state).Ordinary := by
  have agrees := refines state valid
  cases run : program state with
  | ok value after => trivial
  | err after => trivial
  | fault fault => simp [run, Agrees] at agrees

/--
Outcomes of two programs on two cursors: both succeed with related values and
leave the same input unread, or both fail.
-/
def Alike {ρ : Type} (left : Presentation σ τ) (right : Presentation ρ τ)
    (relation : α → β → Prop) : Outcome σ α → Outcome ρ β → Prop
  | .ok value state, .ok value' state' =>
      relation value value' ∧ left.valid state ∧ right.valid state' ∧
        left.rest state = right.rest state'
  | .err _, .err _ => True
  | _, _ => False

/-- Programs that refine one parser are alike on the same input. -/
theorem Refines.alike {ρ : Type} {left : Presentation σ τ}
    {right : Presentation ρ τ} {relation : α → γ → Prop}
    {relation' : β → γ → Prop} {both : α → β → Prop}
    {program : Cursor σ α} {program' : Cursor ρ β} {parser : Parser τ γ}
    (refines : left.Refines relation program parser)
    (refines' : right.Refines relation' program' parser)
    (related : ∀ value value' result, relation value result →
      relation' value' result → both value value')
    {state : σ} {state' : ρ} (valid : left.valid state)
    (valid' : right.valid state') (same : left.rest state =
      right.rest state') :
    Alike left right both (program state) (program' state') := by
  cases parsed : parser (left.rest state) with
  | none =>
      rcases refines.run_err valid parsed with ⟨after, run⟩
      rw [same] at parsed
      rcases refines'.run_err valid' parsed with ⟨after', run'⟩
      rw [run, run']
      trivial
  | some result =>
      rcases result with ⟨result, rest⟩
      rcases refines.run_ok valid parsed with
        ⟨value, after, run, holds, kept, left_⟩
      rw [same] at parsed
      rcases refines'.run_ok valid' parsed with
        ⟨value', after', run', holds', kept', left'⟩
      rw [run, run']
      exact ⟨related value value' result holds holds', kept, kept',
        left_.trans left'.symm⟩

end Presentation

end Thubo
