/-!
# Runs of transition systems

A transition system is a partial step function on states.  A run follows a
list of actions and exists when every action is possible in turn.  A run is
guarded when every action meets a condition on the state it is taken in.
-/

namespace Thubo
namespace Runs

variable {State Action : Type}
variable {step : State → Action → Option State}
variable {guard : State → Action → Prop}

/-- The state after a list of actions. -/
def run (step : State → Action → Option State) :
    State → List Action → Option State
  | state, [] => some state
  | state, action :: rest =>
      match step state action with
      | none => none
      | some after => run step after rest

/-- Every action of a run meets the guard in the state it is taken in. -/
def Guarded (step : State → Action → Option State)
    (guard : State → Action → Prop) : State → List Action → Prop
  | _, [] => True
  | state, action :: rest =>
      guard state action ∧
        match step state action with
        | none => True
        | some after => Guarded step guard after rest

@[simp]
theorem run_nil (state : State) : run step state [] = some state :=
  rfl

theorem run_cons {state after : State} {action : Action}
    (first : step state action = some after) (rest : List Action) :
    run step state (action :: rest) = run step after rest := by
  rw [run, first]

/-- The first action of a run and what follows it. -/
theorem run_cons_cases {state final : State} {action : Action}
    {rest : List Action}
    (ran : run step state (action :: rest) = some final) :
    ∃ after, step state action = some after ∧
      run step after rest = some final := by
  rw [run] at ran
  cases first : step state action with
  | none =>
      rw [first] at ran
      cases ran
  | some after =>
      rw [first] at ran
      exact ⟨after, rfl, ran⟩

/-- A run followed by another one. -/
theorem run_append {state middle : State} {front : List Action}
    (ran : run step state front = some middle) (back : List Action) :
    run step state (front ++ back) = run step middle back := by
  induction front generalizing state with
  | nil =>
      cases ran
      rfl
  | cons action front hypothesis =>
      rcases run_cons_cases ran with ⟨after, first, later⟩
      rw [List.cons_append, run_cons first, hypothesis later]

theorem Guarded.rest {state after : State} {action : Action}
    {rest : List Action}
    (guarded : Guarded step guard state (action :: rest))
    (first : step state action = some after) :
    Guarded step guard after rest := by
  have later := guarded.2
  rwa [first] at later

/--
A property that every guarded step preserves holds at the end of every
guarded run that starts with it.
-/
theorem invariant {invariant : State → Prop}
    (keeps : ∀ state action after, invariant state → guard state action →
      step state action = some after → invariant after)
    {start final : State} {actions : List Action}
    (initially : invariant start)
    (guarded : Guarded step guard start actions)
    (ran : run step start actions = some final) : invariant final := by
  induction actions generalizing start with
  | nil =>
      cases ran
      exact initially
  | cons action actions hypothesis =>
      rcases run_cons_cases ran with ⟨after, first, later⟩
      exact hypothesis
        (keeps start action after initially guarded.1 first)
        (guarded.rest first) later

/-- One more action at the end of a run. -/
theorem run_concat {state middle after : State} {front : List Action}
    {action : Action} (ran : run step state front = some middle)
    (last : step middle action = some after) :
    run step state (front ++ [action]) = some after := by
  rw [run_append ran, run_cons last, run_nil]

/-- One more action at the end of a guarded run. -/
theorem Guarded.concat {state middle : State} {front : List Action}
    {action : Action} (guarded : Guarded step guard state front)
    (ran : run step state front = some middle)
    (met : guard middle action) :
    Guarded step guard state (front ++ [action]) := by
  induction front generalizing state with
  | nil =>
      cases ran
      refine ⟨met, ?_⟩
      split <;> trivial
  | cons first front hypothesis =>
      rcases run_cons_cases ran with ⟨after, stepped, later⟩
      refine ⟨guarded.1, ?_⟩
      have rest := hypothesis (guarded.rest stepped) later
      rwa [stepped]

/-- A condition on the actions alone joins the guard. -/
theorem Guarded.with_all {good : Action → Prop} {start : State}
    {actions : List Action} (all : ∀ action ∈ actions, good action)
    (guarded : Guarded step guard start actions) :
    Guarded step (fun state action => good action ∧ guard state action)
      start actions := by
  induction actions generalizing start with
  | nil => trivial
  | cons action actions hypothesis =>
      rw [List.forall_mem_cons] at all
      refine ⟨⟨all.1, guarded.1⟩, ?_⟩
      cases first : step start action with
      | none => trivial
      | some after => exact hypothesis all.2 (guarded.rest first)

/-- A run is guarded when its actions meet the guard in every state. -/
theorem guarded_of_all {start : State} {actions : List Action}
    (all : ∀ action ∈ actions, ∀ state, guard state action) :
    Guarded step guard start actions := by
  induction actions generalizing start with
  | nil => trivial
  | cons action actions hypothesis =>
      rw [List.forall_mem_cons] at all
      refine ⟨all.1 start, ?_⟩
      cases step start action with
      | none => trivial
      | some after => exact hypothesis all.2

/--
Two guards that agree where an invariant holds guard the same runs, when the
steps that meet the first one keep the invariant.
-/
theorem guarded_congr {invariant : State → Prop}
    {other : State → Action → Prop}
    (agree : ∀ state action, invariant state →
      (guard state action ↔ other state action))
    (keeps : ∀ state action after, invariant state → guard state action →
      step state action = some after → invariant after)
    {start : State} (initially : invariant start) (actions : List Action) :
    Guarded step guard start actions ↔
      Guarded step other start actions := by
  induction actions generalizing start with
  | nil => exact Iff.rfl
  | cons action actions hypothesis =>
      rw [Guarded, Guarded, agree start action initially]
      apply and_congr_right
      intro met
      cases first : step start action with
      | none => exact Iff.rfl
      | some after =>
          have first_met := (agree start action initially).2 met
          exact hypothesis (keeps start action after initially first_met
            first)

/-- Runs without a guard. -/
theorem guarded_trivial (state : State) (actions : List Action) :
    Guarded step (fun _ _ => True) state actions := by
  induction actions generalizing state with
  | nil => trivial
  | cons action actions hypothesis =>
      refine ⟨trivial, ?_⟩
      cases first : step state action with
      | none => trivial
      | some after => exact hypothesis after

/-- A property that every step preserves holds at the end of every run. -/
theorem invariant_of_step {invariant : State → Prop}
    (keeps : ∀ state action after, invariant state →
      step state action = some after → invariant after)
    {start final : State} {actions : List Action}
    (initially : invariant start)
    (ran : run step start actions = some final) : invariant final :=
  Runs.invariant (fun state action after holds _ =>
    keeps state action after holds) initially
    (guarded_trivial start actions) ran

/--
When an abstract system can follow every step and reach a related state, it
can follow every run.
-/
theorem simulation {Abstract : Type} {invariant : State → Prop}
    {related : State → Abstract → Prop}
    {reaches : Abstract → Abstract → Prop}
    (stays : ∀ abstract, reaches abstract abstract)
    (goes : ∀ first middle last, reaches first middle →
      reaches middle last → reaches first last)
    (keeps : ∀ state action after, invariant state →
      step state action = some after → invariant after)
    (follows : ∀ state action after abstract, invariant state →
      step state action = some after → related state abstract →
        ∃ later, reaches abstract later ∧ related after later)
    {start final : State} {actions : List Action} {abstract : Abstract}
    (initially : invariant start) (begins : related start abstract)
    (ran : run step start actions = some final) :
    ∃ last, reaches abstract last ∧ related final last := by
  induction actions generalizing start abstract with
  | nil =>
      cases ran
      exact ⟨abstract, stays abstract, begins⟩
  | cons action actions hypothesis =>
      rcases run_cons_cases ran with ⟨after, first, later⟩
      rcases follows start action after abstract initially first begins with
        ⟨middle, reached, relates⟩
      rcases hypothesis (keeps start action after initially first) relates
          later with ⟨last, rest, ends⟩
      exact ⟨last, goes abstract middle last reached rest, ends⟩

/--
When a state that has not reached its goal always has an allowed step of a
lower rank, some run of allowed steps reaches the goal.
-/
theorem reaches_of_rank {Rank : Type} {less : Rank → Rank → Prop}
    (founded : WellFounded less) (rank : State → Rank)
    (invariant goal : State → Prop) {allowed : Action → Prop}
    (progress : ∀ state, invariant state → ¬ goal state →
      ∃ action after, allowed action ∧ step state action = some after ∧
        invariant after ∧ less (rank after) (rank state))
    {start : State} (initially : invariant start) :
    ∃ actions final, (∀ action ∈ actions, allowed action) ∧
      run step start actions = some final ∧ invariant final ∧
        goal final := by
  -- on the rank of the state that the run starts in
  induction same : rank start using founded.induction generalizing start with
  | _ level hypothesis =>
      by_cases reached : goal start
      · exact ⟨[], start, by simp, rfl, initially, reached⟩
      · rcases progress start initially reached with
          ⟨action, after, may, first, holds, lower⟩
        rw [same] at lower
        rcases hypothesis _ lower holds rfl with
          ⟨actions, final, rest, ran, ends⟩
        refine ⟨action :: actions, final, ?_, ?_, ends⟩
        · exact List.forall_mem_cons.2 ⟨may, rest⟩
        · rw [run_cons first]
          exact ran

/-- A run whose end passes a test ends. -/
theorem exists_of_any {start : State} {actions : List Action}
    {test : State → Bool}
    (passed : (run step start actions).any test = true) :
    ∃ final, run step start actions = some final ∧ test final = true :=
  (Option.any_eq_true test _).1 passed

/-- The guard of a run can be checked step by step. -/
instance decidableGuarded [DecidableRel guard] :
    (state : State) → (actions : List Action) →
      Decidable (Guarded step guard state actions)
  | _, [] => .isTrue trivial
  | state, action :: rest =>
      match first : step state action with
      | none =>
          decidable_of_iff (guard state action)
            (by rw [Guarded, first]; simp)
      | some after =>
          have := decidableGuarded after rest
          decidable_of_iff
            (guard state action ∧ Guarded step guard after rest)
            (by rw [Guarded, first])

end Runs
end Thubo
