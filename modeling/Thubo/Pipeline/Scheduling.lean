import Thubo.Pipeline.Moves

/-!
# The order in which batches leave

Batches of one priority leave in the order in which they were committed, a
batch is handed out when the rings of all higher priorities have been seen
empty in the same pass, and `try_pull` does what `pull` does whenever it
returns a batch.
-/

namespace Thubo
namespace Tx
/-! ## A call of the puller that is over -/

/-- Neither `pull` nor `try_pull` is running. -/
def PullPoint.Over : PullPoint → Prop
  | .idle | .refill _ _ false | .drainLock _ | .drainFlush _
  | .drainLook _ | .drainTake _ | .drainUnlock _ | .dropPull
  | .dropRefill _ | .gone => True
  | _ => False

/-- `drain` is running. -/
def PullPoint.Draining : PullPoint → Prop
  | .drainLock _ | .drainFlush _ | .drainLook _ | .drainTake _
  | .drainUnlock _ => True
  | _ => False

namespace Pipeline

variable {pipeline after : Pipeline} {action : Action}

theorem over_next {p : Priority} {point : Priority → PullPoint}
    {last : PullPoint} (points : ∀ q, (point q).Over)
    (final : last.Over) : (next p point last).Over := by
  unfold next
  split
  · exact points _
  · exact final

/-- The puller hands out nothing when no call of it is running. -/
theorem Goes.over {p : Priority} {act : Queue.Action} {point : PullPoint}
    (goes : Goes pipeline p act point)
    (ended : pipeline.puller.point.Over) : point.Over := by
  cases goes with
  | reject slot discarded at_ =>
      rw [at_] at ended
      cases discarded
      · trivial
      · cases ended
  | put slot discarded at_ =>
      rw [at_] at ended
      cases discarded
      · trivial
      · cases ended
  | notify slot discarded at_ =>
      rw [at_] at ended
      cases discarded
      · trivial
      · cases ended
  | drainLock p at_ => exact over_next (fun _ => trivial) trivial
  | drainFlush p at_ => exact over_next (fun _ => trivial) trivial
  | drainTake p at_ => trivial
  | dropRefill p at_ => exact over_next (fun _ => trivial) trivial
  | take p at_ | setFlush p at_ | lock p at_ | flush p at_
  | unlock p at_ =>
      rw [at_] at ended
      cases ended
  | clear p slot at_ hand =>
      rw [at_] at ended
      cases ended
  | discard p congested slot at_ hand fate =>
      rw [at_] at ended
      cases ended

theorem Pulls.over (pulls : Pulls pipeline after)
    (ended : pipeline.puller.point.Over) :
    after.puller.point.Over ∧ after.handed = pipeline.handed := by
  cases pulls with
  | goes p act point queue goes stepped => exact ⟨goes.over ended, rfl⟩
  | drainUnlock p queue at_ stepped =>
      exact ⟨over_next (fun _ => trivial) trivial, rfl⟩
  | room slot discarded at_ room =>
      rw [at_] at ended
      cases discarded
      · exact ⟨trivial, rfl⟩
      · cases ended
  | drainFound p at_ ring => exact ⟨trivial, rfl⟩
  | drainNothing p at_ ring =>
      exact ⟨over_next (fun _ => trivial) trivial, rfl⟩
  | dropPull at_ => exact ⟨trivial, rfl⟩
  | handOut p congested slot queue at_ hand fate stepped =>
      rw [at_] at ended
      cases ended
  | disabled at_ disabled =>
      rw [at_] at ended
      cases ended
  | scan at_ enabled =>
      rw [at_] at ended
      cases ended
  | found p at_ ring | locked p at_ | load p at_ | yielding p at_
  | setBackoff p at_ =>
      rw [at_] at ended
      cases ended
  | booked p at_ ring booked =>
      rw [at_] at ended
      cases ended
  | lower p lower at_ ring free next =>
      rw [at_] at ended
      cases ended
  | nothing p at_ ring free last =>
      rw [at_] at ended
      cases ended
  | age p aged at_ =>
      rw [at_] at ended
      cases ended
  | unsetBackoff at_ | check at_ | listening at_ | parked at_ =>
      rw [at_] at ended
      cases ended

/-- Nothing is handed out before the next call. -/
theorem Did.over (did : Did pipeline action after)
    (noPull : ∀ mode, action ≠ .pull mode)
    (ended : pipeline.puller.point.Over) :
    after.puller.point.Over ∧ after.handed = pipeline.handed := by
  cases did with
  | pull mode idle undrained => exact absurd rfl (noPull mode)
  | puller aged after pulls => exact pulls.over ended
  | refill p slot idle held => exact ⟨trivial, rfl⟩
  | cancelPull waits => exact ⟨trivial, rfl⟩
  | drain idle undrained => exact ⟨trivial, rfl⟩
  | drop idle => exact ⟨trivial, rfl⟩
  | _ => exact ⟨ended, rfl⟩

/-- Where something is handed out, the call is over. -/
theorem Did.handed (did : Did pipeline action after) :
    after.handed = pipeline.handed ∨ after.puller.point.Over := by
  cases did with
  | puller aged after pulls =>
      cases pulls with
      | handOut p congested slot queue at_ hand fate stepped =>
          exact Or.inr trivial
      | booked p at_ ring booked => exact Or.inl rfl
      | nothing p at_ ring free last => exact Or.inl rfl
      | _ => exact Or.inl rfl
  | _ => exact Or.inl rfl

/-- Only a new call changes the function of the puller. -/
theorem Did.mode (did : Did pipeline action after)
    (noPull : ∀ mode, action ≠ .pull mode) :
    after.puller.mode = pipeline.puller.mode := by
  cases did with
  | pull mode idle undrained => exact absurd rfl (noPull mode)
  | puller aged after pulls => cases pulls <;> rfl
  | _ => rfl

/-! ## `try_pull` and `pull` -/

/-- The same state with `pull` in the place of `try_pull`. -/
def asPull (pipeline : Pipeline) : Pipeline :=
  { pipeline with puller := { pipeline.puller with mode := .pull } }

/-- The puller finds no batch before the first booked one. -/
def Fruitless (pipeline : Pipeline) : Prop :=
  ∃ p, pipeline.puller.point = .look p ∧
    (pipeline.queues p).pool.ring = [] ∧
      ((pipeline.queues p).pool.booked.isSome ∨ p.lower = none)

theorem on_asPull (pipeline : Pipeline) (p : Priority)
    (act : Queue.Action) :
    pipeline.asPull.on p act = (pipeline.on p act).map asPull := by
  have queues : pipeline.asPull.queues = pipeline.queues := rfl
  unfold on
  rw [queues]
  cases (pipeline.queues p).step act <;> rfl

theorem onTo_asPull (pipeline : Pipeline) (p : Priority)
    (act : Queue.Action) (point : PullPoint) :
    pipeline.asPull.onTo p act point =
      (pipeline.onTo p act point).map asPull := by
  unfold onTo
  rw [on_asPull]
  cases pipeline.on p act <;> rfl

theorem onTask_asPull (pipeline : Pipeline) (p : Priority)
    (act : Queue.Action) (task : Nat) (point : TaskPoint) :
    pipeline.asPull.onTask p act task point =
      (pipeline.onTask p act task point).map asPull := by
  unfold onTask
  rw [on_asPull]
  cases pipeline.on p act <;> rfl

theorem startAt_asPull (pipeline : Pipeline) (point : PullPoint) :
    pipeline.asPull.startAt point =
      (pipeline.startAt point).map asPull := by
  unfold startAt
  change (if pipeline.puller.point = .idle then _ else _) = _
  split <;> rfl

theorem look_asPull {p : Priority}
    (point : pipeline.puller.point = .look p)
    (fruitful : ¬ Fruitless pipeline) :
    pipeline.asPull.look p = (pipeline.look p).asPull := by
  unfold look
  by_cases ring : (pipeline.queues p).pool.ring ≠ []
  · have same : pipeline.asPull.queues = pipeline.queues := rfl
    simp only [same, if_pos ring]
    rfl
  · have empty := not_not.1 ring
    have free : ¬ (pipeline.queues p).pool.booked.isSome := fun booked =>
      fruitful ⟨p, point, empty, Or.inl booked⟩
    have same : pipeline.asPull.queues = pipeline.queues := rfl
    simp only [same, if_neg ring, if_neg free]
    cases lower : p.lower with
    | none => exact absurd ⟨p, point, empty, Or.inr lower⟩ fruitful
    | some next => rfl

theorem decide_asPull (pipeline : Pipeline) (p : Priority)
    (congested : Bool) :
    pipeline.asPull.decide p congested =
      (pipeline.decide p congested).map asPull := by
  have queues : pipeline.asPull.queues = pipeline.queues := rfl
  unfold decide
  simp only [onTo_asPull, queues]
  cases (pipeline.queues p).pool.hand with
  | none => rfl
  | some slot =>
      dsimp only
      cases (pipeline.queues p).fate congested slot.batch with
      | discarded => rfl
      | handedOut =>
          dsimp only
          cases pipeline.onTo p (.decide congested) .idle <;> rfl

/-- The puller does the same in both functions while there are batches. -/
theorem pullStep_asPull (fruitful : ¬ Fruitless pipeline) (aged : Bool) :
    pipeline.asPull.pullStep aged =
      (pipeline.pullStep aged).map asPull := by
  have same : pipeline.asPull.puller.point = pipeline.puller.point := rfl
  have queues : pipeline.asPull.queues = pipeline.queues := rfl
  have disabled : pipeline.asPull.disabled = pipeline.disabled := rfl
  cases point : pipeline.puller.point <;>
    simp only [pullStep, same, point, onTo_asPull, queues, disabled,
      decide_asPull, Option.map_none]
  case test => split <;> rfl
  case look p =>
    rw [look_asPull point fruitful]
    rfl
  case clear p =>
    unfold uncongest
    simp only [onTo_asPull, queues]
    split <;> rfl
  case refill refilling slot discarded =>
    cases refilling <;> simp only [refillStep, onTo_asPull, queues]
    split <;> rfl
  case tryLock p => split <;> rfl
  case drainLook p => split <;> rfl
  case drainUnlock p =>
    cases pipeline.onTo p (.release .puller) (next p .drainUnlock .idle) <;>
      rfl
  all_goals rfl

theorem pushStep_asPull (pipeline : Pipeline) (p : Priority)
    (call : Nat) :
    pipeline.asPull.pushStep p call =
      (pipeline.pushStep p call).map asPull := by
  have queues : pipeline.asPull.queues = pipeline.queues := rfl
  have backoff : pipeline.asPull.backoff = pipeline.backoff := rfl
  have canPull : pipeline.asPull.canPull = pipeline.canPull := rfl
  simp only [pushStep, on_asPull, queues, backoff, canPull]
  cases pipeline.on p
      (.push call pipeline.backoff pipeline.canPull.err) with
  | none => rfl
  | some after =>
      dsimp only [Option.map_some]
      split <;> rfl

theorem taskStep_asPull (pipeline : Pipeline) (task : Nat) :
    pipeline.asPull.taskStep task =
      (pipeline.taskStep task).map asPull := by
  have tasks : pipeline.asPull.tasks = pipeline.tasks := rfl
  unfold taskStep
  simp only [onTask_asPull, tasks]
  split <;> rfl

/-- Every step but a fruitless one is the same in both functions. -/
theorem step_asPull (noPull : ∀ mode, action ≠ .pull mode)
    (fruitful : (∃ aged, action = .puller aged) → ¬ Fruitless pipeline) :
    pipeline.asPull.step action = (pipeline.step action).map asPull := by
  cases action with
  | call msg qos =>
      simp only [step, on_asPull]
      split <;> rfl
  | push p call =>
      exact pushStep_asPull pipeline p call
  | expire p call => exact on_asPull pipeline p _
  | cancel p call => exact on_asPull pipeline p _
  | pull mode => exact absurd rfl (noPull mode)
  | refill p slot =>
      have queues : pipeline.asPull.queues = pipeline.queues := rfl
      simp only [step, startAt_asPull, queues]
      split <;> rfl
  | puller aged => exact pullStep_asPull (fruitful ⟨aged, rfl⟩) aged
  | cancelPull =>
      have puller : pipeline.asPull.puller.point = pipeline.puller.point :=
        rfl
      simp only [step, cancelPull, puller]
      split <;> rfl
  | drain =>
      have drained : pipeline.asPull.puller.drained =
          pipeline.puller.drained := rfl
      simp only [step, startAt_asPull, drained]
      split <;> rfl
  | drop => exact startAt_asPull pipeline .dropPull
  | disable => rfl
  | task task => exact taskStep_asPull pipeline task

/-- No call of the puller starts with the first action or later. -/
theorem noPull_cons {actions : List Action}
    (noPull : ∀ mode, Action.pull mode ∉ action :: actions) :
    (∀ mode, action ≠ .pull mode) ∧
      ∀ mode, Action.pull mode ∉ actions := by
  constructor
  · rintro mode rfl
    exact noPull mode List.mem_cons_self
  · exact fun mode member => noPull mode (List.mem_cons_of_mem _ member)

/-- A run in which no call of the puller is running. -/
theorem run_asPull_over {actions : List Action}
    (ended : pipeline.puller.point.Over)
    (noPull : ∀ mode, Action.pull mode ∉ actions)
    (ran : run pipeline actions = some after) :
    run pipeline.asPull actions = some after.asPull := by
  induction actions generalizing pipeline with
  | nil =>
      cases ran
      rfl
  | cons action actions hypothesis =>
      rcases Runs.run_cons_cases ran with ⟨middle, first, rest⟩
      rcases noPull_cons noPull with ⟨own, later⟩
      have fruitful : ¬ Fruitless pipeline := by
        rintro ⟨p, point, _⟩
        rw [point] at ended
        cases ended
      have same := step_asPull own fun _ => fruitful
      rw [first] at same
      rw [run_cons same]
      exact hypothesis ((step_did first).over own ended).1 later rest

/-- A run in which no call of the puller is running hands out nothing. -/
theorem run_over {actions : List Action}
    (ended : pipeline.puller.point.Over)
    (noPull : ∀ mode, Action.pull mode ∉ actions)
    (ran : run pipeline actions = some after) :
    after.handed = pipeline.handed := by
  induction actions generalizing pipeline with
  | nil =>
      cases ran
      rfl
  | cons action actions hypothesis =>
      rcases Runs.run_cons_cases ran with ⟨middle, first, rest⟩
      rcases noPull_cons noPull with ⟨own, later⟩
      rcases (step_did first).over own ended with ⟨still, handed⟩
      rw [hypothesis still later rest, handed]

/-- A fruitless inspection ends `try_pull`. -/
theorem fruitless_over {aged : Bool}
    (mode : pipeline.puller.mode = .tryPull)
    (fruitless : Fruitless pipeline)
    (stepped : pipeline.step (.puller aged) = some after) :
    after.puller.point.Over ∧ after.handed = pipeline.handed := by
  rcases fruitless with ⟨p, point, ring, ends⟩
  have looked : after = pipeline.look p := by
    simp only [step, pullStep, point] at stepped
    exact (Option.some.inj stepped).symm
  have idle : pipeline.look p = (pipeline.seen p).goTo .idle := by
    unfold look
    simp only [ring, ne_eq, not_true_eq_false, if_false]
    rcases ends with booked | last
    · rw [if_pos booked]
      simp only [foundBooked, mode, seen, ring]
    · split
      · simp only [foundBooked, mode, seen, ring]
      · simp only [last, Pipeline.nothing, mode, seen, ring]
  rw [looked, idle]
  exact ⟨trivial, rfl⟩

/-- A call of `try_pull` that hands out a batch, in any run. -/
theorem run_asPull {actions : List Action}
    (mode : pipeline.puller.mode = .tryPull)
    (noPull : ∀ mode, Action.pull mode ∉ actions)
    (ran : run pipeline actions = some after) :
    run pipeline.asPull actions = some after.asPull ∨
      after.handed = pipeline.handed := by
  induction actions generalizing pipeline with
  | nil =>
      cases ran
      exact Or.inl rfl
  | cons action actions hypothesis =>
      rcases Runs.run_cons_cases ran with ⟨middle, first, rest⟩
      rcases noPull_cons noPull with ⟨own, later⟩
      by_cases ends :
          (∃ aged, action = .puller aged) ∧ Fruitless pipeline
      · rcases ends with ⟨⟨aged, rfl⟩, fruitless⟩
        rcases fruitless_over mode fruitless first with ⟨ended, handed⟩
        exact Or.inr ((run_over ended later rest).trans handed)
      · have same := step_asPull own fun puller fruitless =>
          ends ⟨puller, fruitless⟩
        rw [first] at same
        rw [run_cons same]
        rcases (step_did first).handed with handed | ended
        · rw [← handed]
          exact hypothesis (((step_did first).mode own).trans mode) later
            rest
        · exact Or.inl (run_asPull_over ended later rest)

/--
Whenever `try_pull` returns a batch, `pull` called in its place returns the
same batch and leaves the same state.
-/
theorem tryPull_asPull {actions : List Action}
    (noPull : ∀ mode, Action.pull mode ∉ actions)
    (ran : run pipeline (.pull .tryPull :: actions) = some after)
    (returned : after.handed ≠ pipeline.handed) :
    run pipeline (.pull .pull :: actions) = some after.asPull := by
  rcases Runs.run_cons_cases ran with ⟨called, first, rest⟩
  have same : pipeline.step (.pull .pull) = some called.asPull ∧
      called.puller.mode = .tryPull ∧
        called.handed = pipeline.handed := by
    simp only [step, startPull] at first ⊢
    split at first
    · rename_i idle
      cases first
      rw [if_pos idle]
      exact ⟨rfl, rfl, rfl⟩
    · cases first
  rw [run_cons same.1]
  rcases run_asPull same.2.1 noPull rest with ran | nothing
  · exact ran
  · exact absurd (nothing.trans same.2.2) returned

/-! ## The pass that finds a batch -/

/-- All higher priorities have been seen empty, one after another. -/
structure Cleared (p : Priority) (pass : List Inspection) : Prop where
  priorities : pass.map Inspection.priority = Priority.ALL.take p.toNat
  empty : ∀ seen ∈ pass, seen.ring = [] ∧ seen.booked = false

/-- A pass ends where it finds a batch and no higher priority had one. -/
def Found (p : Priority) (slot : Slot) (pass : List Inspection) : Prop :=
  ∃ front ring booked, pass = front ++ [⟨p, slot :: ring, booked⟩] ∧
    Cleared p front

/-- What the puller knows of the pass that it is in. -/
def Scanned (pipeline : Pipeline) : Prop :=
  match pipeline.puller.point with
  | .look p => Cleared p pipeline.puller.pass
  | .take p => ∃ slot ring, Found p slot pipeline.puller.pass ∧
      (pipeline.queues p).pool.ring = slot :: ring
  | .clear p | .decide p _ => ∃ slot, Found p slot pipeline.puller.pass ∧
      (pipeline.queues p).pool.hand = some slot
  | _ => True

theorem cleared_high : Cleared .high [] where
  priorities := rfl
  empty seen impossible := by
    cases impossible

/-- The next priority is inspected after one that is empty. -/
theorem Cleared.lower {p lower : Priority} {pass : List Inspection}
    (cleared : Cleared p pass) (next : p.lower = some lower) :
    Cleared lower (pass ++ [⟨p, [], false⟩]) where
  priorities := by
    rw [List.map_append, cleared.priorities]
    cases p <;> cases next <;> rfl
  empty seen member := by
    rcases List.mem_append.1 member with before | last
    · exact cleared.empty seen before
    · rw [List.mem_singleton.1 last]
      exact ⟨rfl, rfl⟩

end Pipeline

/-! ## Pushes and the puller -/

/-- Pushes only add batches to the ring. -/
theorem Stepped.ring {queue later : Queue} {act : Queue.Action}
    (stepped : Stepped queue act later) (pushing : act.Pushing) :
    queue.pool.ring <+: later.pool.ring ∧
      later.pool.hand = queue.pool.hand ∧ later.left = queue.left := by
  cases stepped with
  | quiet call backoff closed here there after holding goes inner =>
      rw [inner]
      exact ⟨List.prefix_refl _, rfl, rfl⟩
  | allocate call backoff closed holding free dry =>
      dsimp only [Pool.allocate]
      split <;> exact ⟨List.prefix_refl _, rfl, rfl⟩
  | pop call backoff closed pool holding popped =>
      rcases Pool.popRefill_eq popped with ⟨slot, first, bare, same⟩
      rw [same]
      exact ⟨List.prefix_refl _, rfl, rfl⟩
  | book call backoff closed pool holding booked =>
      rcases Pool.book_eq booked with ⟨id, bare, free, rfl⟩
      exact ⟨List.prefix_refl _, rfl, rfl⟩
  | commit call backoff closed flush stage batch pool holding resumed out
      free push running log committed =>
      rcases Pool.commit_eq committed with ⟨id, taken, rfl⟩
      exact ⟨List.prefix_append _ _, rfl, rfl⟩
  | flush flusher batch pool locked idle booked committed =>
      rcases Pool.commit_eq committed with ⟨id, taken, rfl⟩
      exact ⟨List.prefix_append _ _, rfl, rfl⟩
  | take pool taken => cases pushing
  | decide congested slot pool hand kept => cases pushing
  | collect slot taken pool took hand kept => cases pushing
  | put slot pool put => cases pushing
  | _ => exact ⟨List.prefix_refl _, rfl, rfl⟩

namespace Pipeline

variable {pipeline after : Pipeline} {action : Action}

/-- A push does not disturb the pass. -/
theorem Scanned.push (scanned : Scanned pipeline) {p : Priority}
    (sound : Sound p (pipeline.queues p)) {queue : Queue}
    {act : Queue.Action}
    (stepped : (pipeline.queues p).step act = some queue)
    (pushing : act.Pushing) (puller : after.puller = pipeline.puller)
    (queues : after.queues = Priority.update pipeline.queues p queue) :
    Scanned after := by
  rcases (sound.stepped stepped).ring pushing with ⟨ring, hand, _⟩
  have grown : ∀ q, (pipeline.queues q).pool.ring <+:
      (after.queues q).pool.ring := by
    intro q
    rw [queues, Priority.update_apply]
    split
    · rename_i same
      cases same
      exact ring
    · exact List.prefix_refl _
  have inspected : ∀ q, (after.queues q).pool.hand =
      (pipeline.queues q).pool.hand := by
    intro q
    rw [queues, Priority.update_apply]
    split
    · rename_i same
      cases same
      exact hand
    · rfl
  unfold Scanned at scanned ⊢
  rw [puller]
  split at scanned
  · exact scanned
  · rename_i q point
    rcases scanned with ⟨slot, rest, found, first⟩
    rcases grown q with ⟨more, same⟩
    refine ⟨slot, rest ++ more, found, ?_⟩
    rw [← same, first, List.cons_append]
  · rename_i q point
    rcases scanned with ⟨slot, found, has⟩
    exact ⟨slot, found, (inspected q).trans has⟩
  · rename_i q congested point
    rcases scanned with ⟨slot, found, has⟩
    exact ⟨slot, found, (inspected q).trans has⟩
  · trivial

/-- The puller is at no point where it knows of a pass. -/
theorem Scanned.elsewhere (look : ∀ p, pipeline.puller.point ≠ .look p)
    (take : ∀ p, pipeline.puller.point ≠ .take p)
    (clear : ∀ p, pipeline.puller.point ≠ .clear p)
    (decide : ∀ p congested, pipeline.puller.point ≠ .decide p congested) :
    Scanned pipeline := by
  unfold Scanned
  split
  · rename_i p point
    exact absurd point (look p)
  · rename_i p point
    exact absurd point (take p)
  · rename_i p point
    exact absurd point (clear p)
  · rename_i p congested point
    exact absurd point (decide p congested)
  · trivial

theorem Scanned.over (ended : pipeline.puller.point.Over) :
    Scanned pipeline := by
  apply Scanned.elsewhere
  all_goals
    intros
    intro point
    rw [point] at ended
    cases ended

/-- The puller goes on with the batch that its pass has found. -/
theorem Goes.scanned {p : Priority} {act : Queue.Action}
    {point : PullPoint} {queue : Queue}
    (goes : Goes pipeline p act point) (scanned : Scanned pipeline)
    (sound : Sound p (pipeline.queues p))
    (stepped : (pipeline.queues p).step act = some queue) :
    Scanned { pipeline with
      queues := Priority.update pipeline.queues p queue
      puller := { pipeline.puller with point := point } } := by
  have ended : point.Over → Scanned { pipeline with
      queues := Priority.update pipeline.queues p queue
      puller := { pipeline.puller with point := point } } :=
    fun ended => .over ended
  cases goes with
  | take p at_ =>
      rw [Scanned, at_] at scanned
      rcases scanned with ⟨slot, ring, found, first⟩
      have does := sound.stepped stepped
      cases does with
      | take pool taken =>
          rcases Pool.take_eq taken with ⟨other, split, free, same⟩
          rw [first] at split
          cases split
          refine ⟨slot, found, ?_⟩
          change (Priority.update pipeline.queues p _ p).pool.hand = _
          rw [Priority.update_same, same]
  | clear p slot at_ hand =>
      rw [Scanned, at_] at scanned
      rcases scanned with ⟨slot', found, has⟩
      rw [hand] at has
      cases has
      refine ⟨slot, found, ?_⟩
      cases stepped
      change (Priority.update pipeline.queues _ _ p).pool.hand = _
      rw [Priority.update_apply]
      split
      · rename_i same
        rw [← same]
        exact hand
      · exact hand
  | notify slot discarded at_ =>
      cases discarded
      · exact ended trivial
      · trivial
  | drainLock p at_ => exact ended (over_next (fun _ => trivial) trivial)
  | drainFlush p at_ => exact ended (over_next (fun _ => trivial) trivial)
  | drainTake p at_ => exact ended trivial
  | dropRefill p at_ => exact ended (over_next (fun _ => trivial) trivial)
  | _ => trivial

theorem Pulls.scanned (pulls : Pulls pipeline after)
    (scanned : Scanned pipeline)
    (sound : ∀ p, Sound p (pipeline.queues p)) : Scanned after := by
  cases pulls with
  | goes p act point queue goes stepped =>
      exact goes.scanned scanned (sound p) stepped
  | drainUnlock p queue at_ stepped =>
      exact .over (over_next (fun _ => trivial) trivial)
  | scan at_ enabled => exact cleared_high
  | found p at_ ring =>
      rw [Scanned, at_] at scanned
      cases batches : (pipeline.queues p).pool.ring with
      | nil => exact absurd batches ring
      | cons slot rest =>
          refine ⟨slot, rest, ⟨_, rest,
            (pipeline.queues p).pool.booked.isSome, ?_, scanned⟩, batches⟩
          change pipeline.puller.pass ++ [_] = _
          rw [batches]
  | lower p lower at_ ring free next =>
      rw [Scanned, at_] at scanned
      change Cleared lower (pipeline.puller.pass ++ [_])
      rw [ring, free]
      exact scanned.lower next
  | booked p at_ ring booked =>
      unfold foundBooked
      split
      · trivial
      · split <;> trivial
  | nothing p at_ ring free last =>
      unfold Pipeline.nothing
      split <;> trivial
  | load p at_ =>
      dsimp only [Scanned, Pipeline.load]
      cases compare (pipeline.queues p).bytes
          (pipeline.puller.bookedLen p) <;> trivial
  | age p aged at_ => cases aged <;> trivial
  | check at_ =>
      unfold Pipeline.wait
      split <;> trivial
  | listening at_ =>
      unfold Pipeline.wait
      split <;> trivial
  | drainNothing p at_ ring =>
      exact .over (over_next (fun _ => trivial) trivial)
  | _ => trivial

theorem Did.scanned (did : Did pipeline action after)
    (scanned : Scanned pipeline)
    (sound : ∀ p, Sound p (pipeline.queues p)) : Scanned after := by
  cases did with
  | call msg qos queue bounded stepped =>
      exact scanned.push (sound _) stepped trivial rfl rfl
  | push p call queue stepped =>
      exact scanned.push (sound _) stepped trivial rfl rfl
  | expire p call queue stepped =>
      exact scanned.push (sound _) stepped trivial rfl rfl
  | cancel p call queue stepped =>
      exact scanned.push (sound _) stepped trivial rfl rfl
  | puller aged after pulls => exact pulls.scanned scanned sound
  | disable => exact scanned
  | disabled task point => exact scanned
  | task task p act point queue disables stepped =>
      refine scanned.push (sound _) stepped ?_ rfl rfl
      cases disables <;> trivial
  | _ => trivial

/-- What is handed out has been found by a pass. -/
def Passed (pipeline : Pipeline) : Prop :=
  ∀ handing ∈ pipeline.handed,
    Found handing.priority handing.slot handing.pass

theorem Did.passed (did : Did pipeline action after)
    (scanned : Scanned pipeline) (passed : Passed pipeline) :
    Passed after := by
  cases did with
  | puller aged after pulls =>
      cases pulls with
      | handOut p congested slot queue at_ hand fate stepped =>
          rw [Scanned, at_] at scanned
          rcases scanned with ⟨slot', found, has⟩
          rw [hand] at has
          cases has
          intro handing member
          rcases List.mem_append.1 member with before | last
          · exact passed handing before
          · rw [List.mem_singleton.1 last]
            exact found
      | booked p at_ ring booked => exact passed
      | nothing p at_ ring free last => exact passed
      | _ => exact passed
  | _ => exact passed

/-! ## The batches handed out -/

/-- The batches of a priority that `pull` and `try_pull` have returned. -/
def handedAt (pipeline : Pipeline) (p : Priority) : List Slot :=
  (pipeline.handed.filter fun handing => handing.priority = p).map
    Handing.slot

/-- Before `drain` only `pull` and `try_pull` hand batches out. -/
def Returned (pipeline : Pipeline) : Prop :=
  pipeline.puller.drained = false → ¬ pipeline.puller.point.Draining → ∀ p,
    ((pipeline.queues p).left.filter fun departure =>
      departure.fate = .handedOut).map Departure.slot =
        pipeline.handedAt p

end Pipeline

/-- What a step adds to the batches that have left. -/
theorem Stepped.left {queue later : Queue} {act : Queue.Action}
    (stepped : Stepped queue act later) :
    later.left = queue.left ∨ act = .collect ∨
      ∃ congested slot, act = .decide congested ∧
        queue.pool.hand = some slot ∧
          later.left = queue.left ++
            [⟨slot, queue.fate congested slot.batch⟩] := by
  cases stepped with
  | quiet call backoff closed here there after holding goes inner =>
      rw [inner]
      exact Or.inl rfl
  | decide congested slot pool hand kept =>
      exact Or.inr (Or.inr ⟨congested, slot, rfl, hand, rfl⟩)
  | collect slot taken pool took hand kept => exact Or.inr (Or.inl rfl)
  | _ => exact Or.inl rfl

namespace Pipeline

variable {pipeline after : Pipeline} {action : Action}

/-- A step of a queue that hands out no batch. -/
theorem Returned.step (returned : Returned pipeline) {p : Priority}
    {queue : Queue}
    (same : (queue.left.filter fun departure =>
        departure.fate = .handedOut) =
      (pipeline.queues p).left.filter fun departure =>
        departure.fate = .handedOut)
    (queues : after.queues = Priority.update pipeline.queues p queue)
    (handed : after.handed = pipeline.handed)
    (before : after.puller.drained = false → ¬ after.puller.point.Draining →
      pipeline.puller.drained = false ∧ ¬ pipeline.puller.point.Draining) :
    Returned after := by
  intro undrained outside q
  rcases before undrained outside with ⟨earlier, not⟩
  have old := returned earlier not q
  rw [handedAt, handed, queues, Priority.update_apply]
  split
  · rename_i own
    rw [same, ← own]
    exact old
  · exact old

/-- A step that changes no queue. -/
theorem Returned.stay (returned : Returned pipeline)
    (queues : after.queues = pipeline.queues)
    (handed : after.handed = pipeline.handed)
    (before : after.puller.drained = false → ¬ after.puller.point.Draining →
      pipeline.puller.drained = false ∧ ¬ pipeline.puller.point.Draining) :
    Returned after := by
  intro undrained outside q
  rcases before undrained outside with ⟨earlier, not⟩
  rw [handedAt, handed, queues]
  exact returned earlier not q

theorem Returned.push (returned : Returned pipeline) {p : Priority}
    (sound : Sound p (pipeline.queues p)) {queue : Queue}
    {act : Queue.Action}
    (stepped : (pipeline.queues p).step act = some queue)
    (pushing : act.Pushing) (puller : after.puller = pipeline.puller)
    (queues : after.queues = Priority.update pipeline.queues p queue)
    (handed : after.handed = pipeline.handed) : Returned after := by
  have left := ((sound.stepped stepped).ring pushing).2.2
  refine returned.step (by rw [left]) queues handed ?_
  intro undrained outside
  rw [puller] at undrained outside
  exact ⟨undrained, outside⟩

theorem draining_next {p : Priority} {point : Priority → PullPoint}
    {last : PullPoint} (points : ∀ q, (point q).Draining)
    (final : last.Draining) : (next p point last).Draining := by
  unfold next
  split
  · exact points _
  · exact final

/-- Where the puller does not drain, it did not before. -/
theorem Goes.draining {p : Priority} {act : Queue.Action}
    {point : PullPoint} (goes : Goes pipeline p act point)
    (outside : ¬ point.Draining) :
    ¬ pipeline.puller.point.Draining ∧ act ≠ .collect := by
  cases goes with
  | drainLock p at_ =>
      exact (outside (draining_next (fun _ => trivial) trivial)).elim
  | drainFlush p at_ =>
      exact (outside (draining_next (fun _ => trivial) trivial)).elim
  | drainTake p at_ => exact absurd trivial outside
  | clear p slot at_ hand =>
      rw [at_]
      exact ⟨id, by simp⟩
  | discard p congested slot at_ hand fate =>
      rw [at_]
      exact ⟨id, by simp⟩
  | reject slot discarded at_ | put slot discarded at_
  | notify slot discarded at_ =>
      rw [at_]
      exact ⟨id, by simp⟩
  | take p at_ | setFlush p at_ | lock p at_ | flush p at_ | unlock p at_
  | dropRefill p at_ =>
      rw [at_]
      exact ⟨id, by simp⟩

theorem Goes.returned {p : Priority} {act : Queue.Action}
    {point : PullPoint} {queue : Queue}
    (goes : Goes pipeline p act point) (returned : Returned pipeline)
    (sound : Sound p (pipeline.queues p))
    (stepped : (pipeline.queues p).step act = some queue) :
    Returned { pipeline with
      queues := Priority.update pipeline.queues p queue
      puller := { pipeline.puller with point := point } } := by
  intro undrained outside
  rcases goes.draining outside with ⟨earlier, notCollect⟩
  have same : (queue.left.filter fun departure =>
      departure.fate = .handedOut) =
        (pipeline.queues p).left.filter fun departure =>
          departure.fate = .handedOut := by
    rcases (sound.stepped stepped).left with
      left | collect | ⟨congested, slot, is, hand, left⟩
    · rw [left]
    · exact absurd collect notCollect
    · cases goes with
      | discard p congested slot' at_ hand' fate =>
          rw [hand] at hand'
          cases hand'
          cases is
          rw [left, fate, List.filter_append]
          simp
      | _ => cases is
  exact returned.step same rfl rfl (fun _ _ => ⟨undrained, earlier⟩)
    undrained outside

theorem Pulls.returned (pulls : Pulls pipeline after)
    (returned : Returned pipeline)
    (sound : ∀ p, Sound p (pipeline.queues p)) : Returned after := by
  cases pulls with
  | goes p act point queue goes stepped =>
      exact goes.returned returned (sound p) stepped
  | handOut p congested slot queue at_ hand fate stepped =>
      intro undrained outside q
      have earlier : ¬ pipeline.puller.point.Draining := by
        rw [at_]
        exact id
      have old := returned undrained earlier q
      have does := (sound p).stepped stepped
      cases does with
      | decide congested found pool inspected kept =>
          rw [hand] at inspected
          cases inspected
          change (List.filter _ (Priority.update pipeline.queues p _
            q).left).map Departure.slot = ((pipeline.handed ++ [_]).filter
              fun handing : Handing => handing.priority = q).map Handing.slot
          rw [Priority.update_apply, List.filter_append, List.map_append]
          split
          · rename_i own
            cases own
            dsimp only
            rw [List.filter_append, List.map_append, old, fate]
            simp [handedAt]
          · rename_i other
            rw [old, handedAt]
            simp [Ne.symm other]
  | drainUnlock p queue at_ stepped =>
      intro undrained outside
      dsimp only at undrained outside
      unfold next at undrained outside
      split at outside
      · exact absurd trivial outside
      · rename_i last
        rw [last] at undrained
        cases undrained
  | drainFound p at_ ring =>
      intro undrained outside
      exact absurd trivial outside
  | drainNothing p at_ ring =>
      intro undrained outside
      exact (outside (draining_next (fun _ => trivial) trivial)).elim
  | nothing p at_ ring free last =>
      refine returned.stay rfl rfl fun undrained _ => ⟨undrained, ?_⟩
      rw [at_]
      exact id
  | lower p lower at_ ring free next =>
      refine returned.stay rfl rfl fun undrained _ => ⟨undrained, ?_⟩
      rw [at_]
      exact id
  | disabled at_ other | scan at_ other =>
      refine returned.stay rfl rfl fun undrained _ => ⟨undrained, ?_⟩
      rw [at_]
      exact id
  | booked p at_ ring booked =>
      refine returned.stay rfl rfl fun undrained _ => ⟨undrained, ?_⟩
      rw [at_]
      exact id
  | room slot discarded at_ room =>
      refine returned.stay rfl rfl fun undrained _ => ⟨undrained, ?_⟩
      rw [at_]
      exact id
  | found p at_ ring =>
      refine returned.stay rfl rfl fun undrained _ => ⟨undrained, ?_⟩
      rw [at_]
      exact id
  | age p aged at_ =>
      refine returned.stay rfl rfl fun undrained _ => ⟨undrained, ?_⟩
      rw [at_]
      exact id
  | setBackoff p at_ | yielding p at_ | load p at_ | locked p at_ =>
      refine returned.stay rfl rfl fun undrained _ => ⟨undrained, ?_⟩
      rw [at_]
      exact id
  | unsetBackoff at_ | check at_ | listening at_ | parked at_
  | dropPull at_ =>
      refine returned.stay rfl rfl fun undrained _ => ⟨undrained, ?_⟩
      rw [at_]
      exact id

theorem Did.returned (did : Did pipeline action after)
    (returned : Returned pipeline)
    (sound : ∀ p, Sound p (pipeline.queues p)) : Returned after := by
  cases did with
  | call msg qos queue bounded stepped =>
      exact returned.push (sound _) stepped trivial rfl rfl rfl
  | push p call queue stepped =>
      exact returned.push (sound _) stepped trivial rfl rfl rfl
  | expire p call queue stepped =>
      exact returned.push (sound _) stepped trivial rfl rfl rfl
  | cancel p call queue stepped =>
      exact returned.push (sound _) stepped trivial rfl rfl rfl
  | puller aged after pulls => exact pulls.returned returned sound
  | task task p act point queue disables stepped =>
      refine returned.push (sound _) stepped ?_ rfl rfl rfl
      cases disables <;> trivial
  | disable => exact returned
  | disabled task point => exact returned
  | drain idle undrained =>
      intro undrained outside
      exact absurd trivial outside
  | pull mode idle undrained =>
      refine returned.stay rfl rfl fun undrained _ => ⟨undrained, ?_⟩
      rw [idle]
      exact id
  | refill p slot idle held =>
      refine returned.stay rfl rfl fun undrained _ => ⟨undrained, ?_⟩
      rw [idle]
      exact id
  | drop idle =>
      refine returned.stay rfl rfl fun undrained _ => ⟨undrained, ?_⟩
      rw [idle]
      exact id
  | cancelPull waits =>
      refine returned.stay rfl rfl fun undrained _ => ⟨undrained, ?_⟩
      rcases waits with ⟨p, at_⟩ | at_
      · rw [at_]
        exact id
      · rw [at_]
        exact id

/-! ## Every run -/

/-- What holds of the order in which batches leave. -/
structure Scheduled (pipeline : Pipeline) : Prop where
  /-- Batches leave the ring in the order in which they were committed. -/
  filed : ∀ p, (pipeline.queues p).departing =
    (pipeline.queues p).stage.committed
  /-- What `pull` and `try_pull` return has been found by a pass. -/
  passed : Passed pipeline
  /-- Only `pull`, `try_pull` and `drain` hand batches out. -/
  returned : Returned pipeline
  /-- `pull` does what `try_pull` does when it returns a batch. -/
  agrees : ∀ (actions : List Action) (after : Pipeline),
    (∀ mode, Action.pull mode ∉ actions) →
      run pipeline (.pull .tryPull :: actions) = some after →
        after.handed ≠ pipeline.handed →
          run pipeline (.pull .pull :: actions) = some after.asPull

/--
In every run the batches of one priority leave in commit order, one is handed
out only after a pass over empty higher priorities, and `try_pull` returns a
batch only where `pull` does the same.
-/
theorem scheduled_of_run {capacity batchSize : Nat}
    (small : batchSize ≤ 65535) {actions : List Action}
    (ran : run (new capacity batchSize) actions = some pipeline) :
    Scheduled pipeline := by
  have keeps : ∀ before action after,
      ((∀ p, Sound p (before.queues p)) ∧ Scanned before ∧
        Passed before ∧ Returned before) →
      step before action = some after →
        (∀ p, Sound p (after.queues p)) ∧ Scanned after ∧
          Passed after ∧ Returned after := by
    rintro before action after ⟨sound, scanned, passed, returned⟩ stepped
    have did := step_did stepped
    exact ⟨fun p => (did.moves p).sound (sound p),
      did.scanned scanned sound, did.passed scanned passed,
      did.returned returned sound⟩
  have initially :
      (∀ p, Sound p ((new capacity batchSize).queues p)) ∧
        Scanned (new capacity batchSize) ∧
          Passed (new capacity batchSize) ∧
            Returned (new capacity batchSize) := by
    refine ⟨fun p => sound_new p capacity small, trivial, ?_, ?_⟩
    · intro handing impossible
      cases impossible
    · intro undrained outside p
      rfl
  rcases Runs.invariant_of_step keeps initially ran with
    ⟨sound, scanned, passed, returned⟩
  exact
    { filed := fun p => (sound p).filed.symm
      passed := passed
      returned := returned
      agrees := fun actions after noPull ran returned =>
        tryPull_asPull noPull ran returned }

/-- A batch is committed and `try_pull` hands it out. -/
theorem scheduled_of_run_handed :
    ∃ pipeline : Pipeline, Scheduled pipeline ∧
      pipeline.handed.length = 1 := by
  have passed : (run (new 1 100)
      ([.call shortMessage ⟨9⟩] ++ List.replicate 12 (.push .medium 0) ++
        [.pull .tryPull] ++ List.replicate 6 (.puller false))).any
          (fun pipeline => pipeline.handed.length = 1) = true := by
    decide +kernel
  rcases Runs.exists_of_any passed with ⟨pipeline, ran, handed⟩
  exact ⟨pipeline, scheduled_of_run (by decide) ran,
    of_decide_eq_true handed⟩

end Pipeline
end Tx
end Thubo
