import Thubo.Pipeline.Completing

/-!
# No deadlock

From every state that the transmit pipeline reaches, every push returns, every
task that disables the pipeline ends, and the puller returns or waits for a
notification that nobody has sent, when nothing new is called.
-/

namespace Thubo
namespace Tx
namespace Pipeline

variable {pipeline after : Pipeline} {action : Action}

/-! ## What every step keeps -/

/-- The queues and the puller are ready, and every stage has room. -/
structure Able (pipeline : Pipeline) : Prop where
  ready : Ready pipeline
  wide : ∀ p, Wide (pipeline.queues p).stage
  described : ∀ p, Described p (pipeline.queues p).stage

theorem able_new (capacity : Nat) {batchSize : Nat}
    (least : 19 ≤ batchSize) (small : batchSize ≤ 65535) :
    Able (new capacity batchSize) where
  ready := ready_new capacity small
  wide _ := ⟨least, small⟩
  described p := described_new p batchSize

theorem QueueMoves.described {p : Priority} {queue later : Queue}
    (moves : QueueMoves p queue later) (sound : Sound p queue)
    (wide : Wide queue.stage) (described : Described p queue.stage) :
    Wide later.stage ∧ Described p later.stage := by
  rcases moves with same | ⟨act, at_, moved⟩
  · rw [same]
    exact ⟨wide, described⟩
  · rcases (sound.stepped moved).stage sound.called with
      same | ⟨own, here, stage⟩
    · rw [same]
      exact ⟨wide, described⟩
    · rcases sound.traced with ⟨parts, current, traced⟩
      rcases step_described described wide here with ⟨result, ran, kept⟩
      rw [stage] at ran
      cases ran
      refine ⟨?_, (kept _ rfl).2⟩
      rw [Wide, step_batchSize traced stage]
      exact wide

theorem Able.step (able : Able pipeline)
    (stepped : pipeline.step action = some after) : Able after := by
  have kept : ∀ p, Wide (after.queues p).stage ∧
      Described p (after.queues p).stage :=
    fun p => QueueMoves.described ((step_did stepped).moves p)
      (able.ready.sound p) (able.wide p) (able.described p)
  exact
    { ready := able.ready.step stepped
      wide := fun p => (kept p).1
      described := fun p => (kept p).2 }

theorem able_of_run {capacity batchSize : Nat} (least : 19 ≤ batchSize)
    (small : batchSize ≤ 65535) {actions : List Action}
    (ran : run (new capacity batchSize) actions = some pipeline) :
    Able pipeline :=
  Runs.invariant_of_step
    (fun _ _ _ (able : Able _) stepped => able.step stepped)
    (able_new capacity least small) ran

/-! ## The pushes return -/

/-- A step that calls nothing and drops nothing. -/
def Action.Internal : Action → Prop
  | .push .. | .expire .. | .puller _ | .task _ => True
  | _ => False

/-- Every push has returned or was dropped. -/
def Answered (pipeline : Pipeline) : Prop :=
  ∀ p, ∀ c ∈ (pipeline.queues p).calls, c.finished = true

/-- How far the pushes are from their end, outside the locks and inside. -/
def pushTurns (pipeline : Pipeline) : Nat × Nat :=
  (Priority.total fun p => (pipeline.queues p).outside,
    Priority.total fun p => (pipeline.queues p).within)

theorem pushTurns_of_closer {p : Priority} {queue : Queue}
    (closer : Closer (pipeline.queues p) queue)
    (queues : after.queues = Priority.update pipeline.queues p queue) :
    Prod.Lex (· < ·) (· < ·) after.pushTurns pipeline.pushTurns := by
  have outside := Priority.total_update pipeline.queues p queue
    fun _ queue => queue.outside
  have within := Priority.total_update pipeline.queues p queue
    fun _ queue => queue.within
  rw [Prod.lex_def, pushTurns, pushTurns, queues]
  rcases closer with less | ⟨same, less⟩
  · left
    show Priority.total (fun q =>
      (Priority.update pipeline.queues p queue q).outside) < _
    omega
  · right
    constructor
    · show Priority.total (fun q =>
        (Priority.update pipeline.queues p queue q).outside) = _
      omega
    · show Priority.total (fun q =>
        (Priority.update pipeline.queues p queue q).within) < _
      omega

section

variable {p : Priority} {act : Queue.Action} {queue : Queue}

theorem on_exists (moved : (pipeline.queues p).step act = some queue) :
    pipeline.on p act = some
      { pipeline with
        queues := Priority.update pipeline.queues p queue } := by
  rw [on, moved]

theorem pushStep_of_step {call : Nat}
    (moved : (pipeline.queues p).step
      (.push call pipeline.backoff pipeline.canPull.err) = some queue) :
    ∃ after, pipeline.pushStep p call = some after ∧
      after.queues = Priority.update pipeline.queues p queue := by
  rw [pushStep, on_exists moved]
  dsimp only
  split
  · exact ⟨_, rfl, rfl⟩
  · exact ⟨_, rfl, rfl⟩

end

/-- Some push or its timer goes on until all pushes have returned. -/
theorem Able.push_closer (able : Able pipeline)
    (pending : ¬ Answered pipeline) :
    ∃ action after, Action.Internal action ∧
      pipeline.step action = some after ∧
        Prod.Lex (· < ·) (· < ·) after.pushTurns pipeline.pushTurns := by
  have found : ∃ p, ∃ c ∈ (pipeline.queues p).calls,
      c.finished = false := by
    simpa [Answered] using pending
  rcases found with ⟨p, c, member, unfinished⟩
  rcases (able.ready.sound p).closer
      ((able.described p).roomy (able.wide p)) member unfinished
      pipeline.backoff pipeline.canPull.err with
    ⟨act, later, pushes, moved, closer⟩
  have goes : ∃ action after, Action.Internal action ∧
      pipeline.step action = some after ∧
        after.queues = Priority.update pipeline.queues p later := by
    cases pushes with
    | push call =>
        rcases pushStep_of_step moved with ⟨after, stepped, queues⟩
        exact ⟨.push p call, after, trivial, stepped, queues⟩
    | expire call =>
        exact ⟨.expire p call, _, trivial, on_exists moved, rfl⟩
  rcases goes with ⟨action, after, internal, stepped, queues⟩
  exact ⟨action, after, internal, stepped,
    pushTurns_of_closer closer queues⟩

/-- The pushes can all return. -/
theorem Able.returns (able : Able pipeline) :
    ∃ actions final, (∀ action ∈ actions, Action.Internal action) ∧
      run pipeline actions = some final ∧ Able final ∧ Answered final := by
  refine Runs.reaches_of_rank (Prod.lex Nat.lt_wfRel Nat.lt_wfRel).wf
    pushTurns Able Answered ?_ able
  intro state able pending
  rcases able.push_closer pending with
    ⟨action, after, internal, stepped, closer⟩
  exact ⟨action, after, internal, stepped, able.step stepped, closer⟩

/-! ## The tasks end and the puller rests -/

/-- The puller has been notified while it waits. -/
def wakes (pipeline : Pipeline) : Bool :=
  pipeline.puller.point == .parked && pipeline.canPull.ok

/-- How far the tasks and the puller are from their end. -/
def serveTurns (pipeline : Pipeline) : Nat :=
  pipeline.turns + 8 * pipeline.wakes.toNat

theorem next_not_parked {p : Priority} {point : Priority → PullPoint}
    {last : PullPoint} (points : ∀ q, (point q == .parked) = false)
    (final : (last == .parked) = false) :
    (next p point last == .parked) = false := by
  unfold next
  split
  · exact points _
  · exact final

theorem Goes.not_parked {p : Priority} {act : Queue.Action}
    {point : PullPoint} (goes : Goes pipeline p act point) :
    (point == .parked) = false := by
  cases goes with
  | notify slot discarded at_ => cases discarded <;> rfl
  | drainLock p at_ => exact next_not_parked (fun _ => rfl) rfl
  | drainFlush p at_ => exact next_not_parked (fun _ => rfl) rfl
  | dropRefill p at_ => exact next_not_parked (fun _ => rfl) rfl
  | _ => rfl

/-- A puller that begins to wait has not been notified. -/
theorem Pulls.not_wakes (pulls : Pulls pipeline after) :
    after.wakes = false := by
  have away : ∀ {later : Pipeline},
      (later.puller.point == .parked) = false → later.wakes = false := by
    intro later other
    rw [wakes, other, Bool.false_and]
  cases pulls with
  | goes p act point queue goes stepped => exact away goes.not_parked
  | drainUnlock p queue point stepped =>
      exact away (next_not_parked (fun _ => rfl) rfl)
  | drainNothing p point ring =>
      exact away (next_not_parked (fun _ => rfl) rfl)
  | booked p point ring booked =>
      apply away
      unfold foundBooked
      split
      · rfl
      · split <;> rfl
  | nothing p point ring free last =>
      apply away
      unfold Pipeline.nothing
      split <;> rfl
  | load p point =>
      apply away
      simp only [Pipeline.load]
      split <;> rfl
  | age p aged point => exact away (by cases aged <;> rfl)
  | check point =>
      apply away
      simp only [wait, goTo]
      split <;> rfl
  | listening point =>
      rw [wakes, Bool.and_eq_false_iff]
      right
      simp only [wait, goTo, Event.check]
      split
      · rfl
      · split <;> rfl
  | _ => exact away rfl

/-- What a step of the puller or of a task does to no call. -/
theorem Goes.serving {p : Priority} {act : Queue.Action}
    {point : PullPoint} (goes : Goes pipeline p act point) :
    act.Serving := by
  cases goes <;> trivial

theorem answered_of_update {p : Priority} {queue : Queue}
    (answered : Answered pipeline)
    (calls : queue.calls = (pipeline.queues p).calls)
    (queues : after.queues = Priority.update pipeline.queues p queue) :
    Answered after := by
  intro q c member
  rw [queues, Priority.update_apply] at member
  split at member
  · rw [calls] at member
    exact answered p c member
  · exact answered q c member

theorem Pulls.answered (pulls : Pulls pipeline after)
    (sound : ∀ p, Sound p (pipeline.queues p))
    (answered : Answered pipeline) : Answered after := by
  cases pulls with
  | goes p act point queue goes stepped =>
      exact answered_of_update answered
        (((sound p).stepped stepped).serves goes.serving).calls rfl
  | handOut p congested slot queue point hand fate stepped =>
      exact answered_of_update answered
        (((sound p).stepped stepped).serves trivial).calls rfl
  | drainUnlock p queue point stepped =>
      exact answered_of_update answered
        (((sound p).stepped stepped).serves trivial).calls rfl
  | booked p point ring booked =>
      unfold foundBooked
      split
      · exact answered
      · split <;> exact answered
  | nothing p point ring free last =>
      unfold Pipeline.nothing
      split <;> exact answered
  | _ => exact answered

section

variable {task : Nat} {here : TaskPoint}

/-- A task takes a step of a queue. -/
theorem Ready.onTask_closer (ready : Ready pipeline)
    (at_ : pipeline.tasks[task]? = some here) {p : Priority}
    {act : Queue.Action} {there : TaskPoint}
    (moves : ∃ queue, (pipeline.queues p).step act = some queue)
    (serving : act.Serving) (less : there.turns < here.turns) :
    ∃ after, pipeline.onTask p act task there = some after ∧
      after.serveTurns < pipeline.serveTurns ∧
        (Answered pipeline → Answered after) := by
  rcases moves with ⟨queue, moved⟩
  have serves := ((ready.sound p).stepped moved).serves serving
  refine ⟨{ pipeline with
    queues := Priority.update pipeline.queues p queue
    tasks := pipeline.tasks.set task there }, ?_, ?_, ?_⟩
  · rw [onTask, on_exists moved]
    rfl
  · apply Nat.add_lt_add_right
    exact turns_of_task serves rfl at_ rfl rfl rfl less
  · intro answered
    exact answered_of_update answered serves.calls rfl

/-- A task goes on when the lock that it waits for is free. -/
theorem Ready.task_closer (ready : Ready pipeline)
    (at_ : pipeline.tasks[task]? = some here) (busy : here ≠ .done)
    (free : ∀ p, here = .lock p → (pipeline.queues p).lock = none) :
    ∃ after, pipeline.taskStep task = some after ∧
      after.serveTurns < pipeline.serveTurns ∧
        (Answered pipeline → Answered after) := by
  have held : ∀ {p : Priority}, here.Holds p →
      (pipeline.queues p).lock = some (.flusher (.disable task)) :=
    fun {p} holds => (ready.owned p (.disable task)).2 ⟨here, at_, holds⟩
  cases here with
  | done => exact absurd rfl busy
  | set =>
      simp only [taskStep, at_]
      refine ⟨_, rfl, ?_, fun answered => answered⟩
      apply Nat.add_lt_add_right
      have sum : ({ pipeline with disabled := true }.taskTo task
          (.lock .high)).taskTurns + TaskPoint.turns .set =
            pipeline.taskTurns + TaskPoint.turns (.lock .high) :=
        taskTurns_set at_ rfl
      have fewer : TaskPoint.turns (.lock .high) < TaskPoint.turns .set := by
        decide
      show _ + pipeline.pullTurns + 40 * pipeline.stock +
        10 * pipeline.shrunk + 20 * pipeline.canPull.ok.toNat < _
      rw [turns]
      omega
  | lock p =>
      simp only [taskStep, at_]
      exact ready.onTask_closer at_ (lock_exists _ (free p rfl)) trivial
        (by cases p <;> decide)
  | flush p =>
      simp only [taskStep, at_]
      exact ready.onTask_closer at_
        (flush_exists (ready.sound p) (held trivial)) trivial
        (by cases p <;> decide)
  | unlock p =>
      simp only [taskStep, at_]
      exact ready.onTask_closer at_ (release_exists (held (Nat.le_refl _)))
        trivial (by cases p <;> decide)

end

/-! ## Who waits for a lock waits for somebody that goes on -/

/-- The puller waits for a notification, or has nothing to do. -/
def Resting (pipeline : Pipeline) : Prop :=
  pipeline.puller.point.Rests ∧ pipeline.wakes = false

theorem Ready.puller_closer (ready : Ready pipeline)
    (busy : ¬ Resting pipeline)
    (free : ∀ p, pipeline.puller.point.Asks p →
      (pipeline.queues p).lock = none) :
    ∃ after, pipeline.pullStep true = some after ∧
      after.serveTurns < pipeline.serveTurns ∧
        (Answered pipeline → Answered after) := by
  by_cases rests : pipeline.puller.point.Rests
  · -- a notification is the only thing that ends the rest
    have wakes : pipeline.wakes = true := by
      rw [← Bool.not_eq_false]
      exact fun quiet => busy ⟨rests, quiet⟩
    have parked : pipeline.puller.point = .parked :=
      eq_of_beq (Bool.and_eq_true_iff.1 wakes).1
    refine ⟨pipeline.goTo .check, by rw [pullStep, parked], ?_,
      fun answered => answered⟩
    have before : pipeline.serveTurns = pipeline.taskTurns + (0 + 0) +
        40 * pipeline.stock + 10 * pipeline.shrunk +
          20 * pipeline.canPull.ok.toNat + 8 * 1 := by
      rw [serveTurns, turns, pullTurns, wakes, parked]
      rfl
    have later : (pipeline.goTo .check).serveTurns =
        pipeline.taskTurns + (7 + 0) + 40 * pipeline.stock +
          10 * pipeline.shrunk + 20 * pipeline.canPull.ok.toNat + 8 * 0 :=
      rfl
    omega
  · rcases ready.pull_closer rests free with ⟨after, stepped, less⟩
    have pulls := pullStep_pulls stepped
    refine ⟨after, stepped, ?_, pulls.answered ready.sound⟩
    rw [serveTurns, serveTurns, pulls.not_wakes]
    exact Nat.lt_of_lt_of_le less (Nat.le_add_right _ _)

/-- Only the puller or a task holds a lock when every push has returned. -/
theorem Ready.flusher (ready : Ready pipeline)
    (answered : Answered pipeline) {p : Priority}
    (locked : (pipeline.queues p).lock ≠ none) :
    ∃ flusher, (pipeline.queues p).lock = some (.flusher flusher) := by
  cases held : (pipeline.queues p).lock with
  | none => exact absurd held locked
  | some holder =>
      cases holder with
      | flusher flusher => exact ⟨flusher, rfl⟩
      | push call here =>
          rcases (ready.sound p).logged.holder call ⟨here, held⟩ with
            ⟨c, turn, found, point, _⟩
          have finished := answered p c (List.mem_of_getElem? found)
          rw [Call.finished, point] at finished
          cases finished

/-- A step of the puller or of a task gets them closer to their end. -/
def Serving (pipeline : Pipeline) : Prop :=
  ∃ action after, Action.Internal action ∧
    pipeline.step action = some after ∧
      after.serveTurns < pipeline.serveTurns ∧
        (Answered pipeline → Answered after)

theorem asks_of_holds {point : PullPoint} {p q : Priority}
    (holds : point.Holds p) (asks : point.Asks q) : p.toNat < q.toNat := by
  rcases asks with rfl | rfl
  · exact holds
  · cases holds

/--
Who holds a lock goes on, or waits for the lock of a lower priority, and
somebody else holds it.
-/
theorem Ready.serving_of_locked (ready : Ready pipeline)
    (answered : Answered pipeline) {p : Priority}
    (locked : (pipeline.queues p).lock ≠ none) : Serving pipeline := by
  -- on the number of priorities below the one that is locked
  induction below : 4 - p.toNat using Nat.strongRecOn generalizing p with
  | _ below hypothesis =>
      have lower : ∀ q, p.toNat < q.toNat →
          (pipeline.queues q).lock ≠ none → Serving pipeline := by
        intro q under held
        refine hypothesis (4 - q.toNat) ?_ held rfl
        have most : q.toNat < 4 := by
          cases q <;> decide
        omega
      rcases ready.flusher answered locked with ⟨flusher, held⟩
      have holds := (ready.owned p flusher).1 held
      cases flusher with
      | puller =>
          by_cases free : ∀ q, pipeline.puller.point.Asks q →
              (pipeline.queues q).lock = none
          · have busy : ¬ Resting pipeline := by
              rintro ⟨rests, _⟩
              revert rests holds
              simp only [HoldsLock]
              cases pipeline.puller.point <;>
                simp [PullPoint.Holds, PullPoint.Rests]
            rcases ready.puller_closer busy free with
              ⟨after, stepped, closer⟩
            exact ⟨.puller true, after, trivial, stepped, closer⟩
          · rw [not_forall] at free
            rcases free with ⟨q, waits⟩
            rw [Classical.not_imp] at waits
            exact lower q (asks_of_holds holds waits.1) waits.2
      | disable task =>
          rcases holds with ⟨here, at_, holds⟩
          by_cases free : ∀ q, here = .lock q →
              (pipeline.queues q).lock = none
          · have busy : here ≠ .done := by
              rintro rfl
              exact holds
            rcases ready.task_closer at_ busy free with
              ⟨after, stepped, closer⟩
            exact ⟨.task task, after, trivial, stepped, closer⟩
          · rw [not_forall] at free
            rcases free with ⟨q, waits⟩
            rw [Classical.not_imp] at waits
            rcases waits with ⟨rfl, waits⟩
            exact lower q holds waits

/-! ## Everything completes -/

/-- Nothing that has been called is still going on. -/
structure Completed (pipeline : Pipeline) : Prop where
  answered : Answered pipeline
  unlocked : ∀ p, (pipeline.queues p).lock = none
  ended : ∀ point ∈ pipeline.tasks, point = .done
  resting : Resting pipeline

/-- Some task or the puller goes on until they are done. -/
theorem Ready.serving (ready : Ready pipeline)
    (answered : Answered pipeline) (pending : ¬ Completed pipeline) :
    Serving pipeline := by
  by_cases locked : ∃ p, (pipeline.queues p).lock ≠ none
  · rcases locked with ⟨p, locked⟩
    exact ready.serving_of_locked answered locked
  have unlocked : ∀ p, (pipeline.queues p).lock = none := by
    simpa using locked
  by_cases resting : Resting pipeline
  · have found : ∃ point ∈ pipeline.tasks, point ≠ .done := by
      by_contra ended
      apply pending
      exact ⟨answered, unlocked, by simpa using ended, resting⟩
    rcases found with ⟨here, member, busy⟩
    rcases List.mem_iff_getElem?.1 member with ⟨task, at_⟩
    rcases ready.task_closer at_ busy fun p _ => unlocked p with
      ⟨after, stepped, closer⟩
    exact ⟨.task task, after, trivial, stepped, closer⟩
  · rcases ready.puller_closer resting fun p _ => unlocked p with
      ⟨after, stepped, closer⟩
    exact ⟨.puller true, after, trivial, stepped, closer⟩

/-- The tasks can all end, and the puller can come to rest. -/
theorem Able.completes (able : Able pipeline)
    (answered : Answered pipeline) :
    ∃ actions final, (∀ action ∈ actions, Action.Internal action) ∧
      run pipeline actions = some final ∧
        (Able final ∧ Answered final) ∧ Completed final := by
  refine Runs.reaches_of_rank Nat.lt_wfRel.wf serveTurns
    (fun state => Able state ∧ Answered state) Completed ?_
    ⟨able, answered⟩
  rintro state ⟨able, answered⟩ pending
  rcases able.ready.serving answered pending with
    ⟨action, after, internal, stepped, closer, keeps⟩
  exact ⟨action, after, internal, stepped,
    ⟨able.step stepped, keeps answered⟩, closer⟩

/--
No state that the pipeline reaches is a deadlock: without another call, the
pushes and the tasks that disable the pipeline end, the locks become free, and
the puller returns or waits for a notification that has not been sent.
-/
theorem completes_of_run {capacity batchSize : Nat}
    (least : 19 ≤ batchSize) (small : batchSize ≤ 65535)
    {actions : List Action}
    (ran : run (new capacity batchSize) actions = some pipeline) :
    ∃ more final, (∀ action ∈ more, Action.Internal action) ∧
      run pipeline more = some final ∧ Completed final := by
  rcases (able_of_run least small ran).returns with
    ⟨first, middle, firstInternal, begins, able, answered⟩
  rcases able.completes answered with
    ⟨second, final, secondInternal, ends, _, completed⟩
  refine ⟨first ++ second, final, ?_, ?_, completed⟩
  · exact List.forall_mem_append.2 ⟨firstInternal, secondInternal⟩
  · exact (Runs.run_append begins second).trans ends

/--
A push has the lock that `drain` and a task that disables the pipeline wait
for.
-/
theorem completes_of_run_waiting :
    ∃ pipeline : Pipeline,
      ((pipeline.queues .high).lock.isSome = true ∧
        pipeline.puller.point = .drainLock .high ∧
          pipeline.tasks = [.lock .high]) ∧
        ∃ more final, (∀ action ∈ more, Action.Internal action) ∧
          run pipeline more = some final ∧ Completed final := by
  have passed : (run (new 2 64)
      [.call shortMessage ⟨0⟩, .push .high 0, .push .high 0, .push .high 0,
        .drain, .disable, .task 0]).any (fun pipeline =>
          (pipeline.queues .high).lock.isSome &&
            (pipeline.puller.point == .drainLock .high) &&
              (pipeline.tasks == [.lock .high])) = true := by
    decide +kernel
  rcases Runs.exists_of_any passed with ⟨pipeline, ran, met⟩
  refine ⟨pipeline, by simpa [and_assoc] using met, ?_⟩
  exact completes_of_run (by decide) (by decide) ran

end Pipeline
end Tx
end Thubo
