import Thubo.Pipeline.Accounting
import Thubo.Pipeline.Deadlock
import Thubo.Pipeline.Draining
import Thubo.Pipeline.Wakeup

/-!
# Stopping

`Sender::stop` disables the pipeline and cancels the write task, which drops
the `pull` that waits and drains the pipeline.  From every state in which
the write task still pulls batches this can end without loss: every byte of
an accepted message that blocks is then in a batch that has been handed out.
That is one order of the steps; in another one a message that is accepted
after the drain stays behind.
-/

namespace Thubo
namespace Tx

/-- Neither `drain` nor the drop of `PipelineTxOut` is running. -/
def PullPoint.Working : PullPoint → Prop
  | .drainLock _ | .drainFlush _ | .drainLook _ | .drainTake _
  | .drainUnlock _ | .dropPull | .dropRefill _ | .gone => False
  | _ => True

/-! ## What becomes of a push -/

/-- A push has gone on, and it stays as it is once it has ended. -/
structure Call.Becomes (c d : Call) : Prop where
  msg : d.msg = c.msg
  qos : d.qos = c.qos
  ended : c.finished = true → d = c

theorem Call.Becomes.refl (c : Call) : c.Becomes c where
  msg := rfl
  qos := rfl
  ended _ := rfl

theorem Call.Becomes.trans {c d e : Call} (first : c.Becomes d)
    (second : d.Becomes e) : c.Becomes e where
  msg := second.msg.trans first.msg
  qos := second.qos.trans first.qos
  ended finished := by
    have same := first.ended finished
    rw [second.ended (same ▸ finished), same]

section

variable {calls : List Call} {call other : Nat} {c d : Call}
variable {queue later : Queue} {act : Queue.Action}

/-- A push that has not ended is changed. -/
theorem becomes_modify {change : Call → Call}
    (found : calls[call]? = some c) (here : calls[other]? = some d)
    (unfinished : d.finished = false) (msg : (change d).msg = d.msg)
    (qos : (change d).qos = d.qos) :
    ∃ e, (calls.modify other change)[call]? = some e ∧ c.Becomes e := by
  rw [List.getElem?_modify, found]
  by_cases same : other = call
  · subst same
    rw [found] at here
    cases here
    refine ⟨change c, by simp, msg, qos, fun ended => ?_⟩
    rw [unfinished] at ended
    cases ended
  · exact ⟨c, by simp [same], .refl c⟩

theorem walks_unfinished {backoff closed : Bool} {there : Point}
    (walks : Walks queue backoff closed c c.point there) :
    c.finished = false := by
  unfold Call.finished
  cases at_ : c.point with
  | done | gone =>
      rw [at_] at walks
      cases walks
  | _ => rfl

/-- Every push stays, and one that has ended stays as it is. -/
theorem Stepped.becomes (stepped : Stepped queue act later)
    (found : queue.calls[call]? = some c) :
    ∃ d, later.calls[call]? = some d ∧ c.Becomes d := by
  have inside : ∀ {other : Nat} {here : Inside},
      Holding queue other here → ∃ d, queue.calls[other]? = some d ∧
        d.finished = false := by
    intro other here holding
    rcases holding.point with ⟨d, at_, point⟩
    exact ⟨d, at_, by rw [Call.finished, point]⟩
  cases stepped with
  | call msg qos since =>
      have bound := (List.getElem?_eq_some_iff.1 found).1
      exact ⟨c, (List.getElem?_append_left bound).trans found, .refl c⟩
  | walk other d backoff closed next here walks =>
      exact becomes_modify found here (walks_unfinished walks) rfl rfl
  | congest other d backoff closed error here point =>
      refine becomes_modify found here ?_ rfl rfl
      rw [Call.finished, point]
  | enter other d backoff closed here point free idle =>
      refine becomes_modify found here ?_ rfl rfl
      rcases point with point | point <;> rw [Call.finished, point]
  | quiet other backoff closed here there after holding goes inner =>
      rw [inner]
      exact ⟨c, found, .refl c⟩
  | unlock other backoff closed result holding =>
      rcases inside holding with ⟨d, here, unfinished⟩
      exact becomes_modify found here unfinished rfl rfl
  | overtime other d here point | leave other d here point =>
      refine becomes_modify found here ?_ rfl rfl
      rw [Call.finished, point]
  | cancel other stage holding abandoned =>
      rcases inside holding with ⟨d, here, unfinished⟩
      exact becomes_modify found here unfinished rfl rfl
  | _ => exact ⟨c, found, .refl c⟩

end

namespace Pipeline

variable {pipeline after begun : Pipeline} {action : Action}

/-- Every push is still there, and one that had ended is as it was. -/
def Endures (begun pipeline : Pipeline) : Prop :=
  ∀ (p : Priority) (call : Nat) (c : Call),
    (begun.queues p).calls[call]? = some c →
      ∃ d, (pipeline.queues p).calls[call]? = some d ∧ c.Becomes d

theorem Endures.step (endures : Endures begun pipeline)
    (ready : Ready pipeline)
    (stepped : pipeline.step action = some after) :
    Endures begun after := by
  intro p call c found
  rcases endures p call c found with ⟨d, here, becomes⟩
  rcases (step_did stepped).moves p with same | ⟨act, at_, moved⟩
  · rw [same]
    exact ⟨d, here, becomes⟩
  · rcases ((ready.sound p).stepped moved).becomes here with
      ⟨e, there, goesOn⟩
    exact ⟨e, there, becomes.trans goesOn⟩

/-- Every push stays through a run. -/
theorem endures_of_run (ready : Ready begun) {actions : List Action}
    (ran : run begun actions = some pipeline) : Endures begun pipeline := by
  have initially : Endures begun begun :=
    fun p call c found => ⟨c, found, .refl c⟩
  have both : Ready pipeline ∧ Endures begun pipeline :=
    Runs.invariant_of_step
      (fun state _ _ (both : Ready state ∧ Endures begun state) stepped =>
        ⟨both.1.step stepped, both.2.step both.1 stepped⟩)
      ⟨ready, initially⟩ ran
  exact both.2

/-! ## The puller goes on until it rests -/

/-- `PipelineTxOut` is still there and has not been drained. -/
structure InUse (pipeline : Pipeline) : Prop where
  undrained : pipeline.puller.drained = false
  working : pipeline.puller.point.Working

theorem Goes.inUse {p : Priority} {act : Queue.Action} {point : PullPoint}
    (goes : Goes pipeline p act point)
    (working : pipeline.puller.point.Working) : point.Working := by
  cases goes with
  | drainLock p at_ | drainFlush p at_ | drainTake p at_
  | dropRefill p at_ =>
      rw [at_] at working
      cases working
  | notify slot discarded at_ => cases discarded <;> trivial
  | _ => trivial

theorem Pulls.inUse (pulls : Pulls pipeline after)
    (inUse : InUse pipeline) : InUse after := by
  have working := inUse.working
  cases pulls with
  | goes p act point queue goes stepped =>
      exact ⟨inUse.undrained, goes.inUse working⟩
  | drainUnlock p queue at_ stepped | drainFound p at_ ring
  | drainNothing p at_ ring | dropPull at_ =>
      rw [at_] at working
      cases working
  | booked p at_ ring booked =>
      refine ⟨inUse.undrained, ?_⟩
      simp only [foundBooked, goTo]
      split
      · trivial
      · split <;> trivial
  | nothing p at_ ring free last =>
      refine ⟨inUse.undrained, ?_⟩
      simp only [Pipeline.nothing, goTo]
      split <;> trivial
  | load p at_ =>
      refine ⟨inUse.undrained, ?_⟩
      simp only [Pipeline.load]
      split <;> trivial
  | age p aged at_ =>
      refine ⟨inUse.undrained, ?_⟩
      cases aged <;> trivial
  | check at_ | listening at_ =>
      refine ⟨inUse.undrained, ?_⟩
      simp only [wait, goTo]
      split <;> trivial
  | _ => exact ⟨inUse.undrained, trivial⟩

/-- Without another call the pipeline stays in use. -/
theorem InUse.step (inUse : InUse pipeline)
    (internal : Action.Internal action)
    (stepped : pipeline.step action = some after) : InUse after := by
  cases step_did stepped with
  | puller aged after pulls => exact pulls.inUse inUse
  | push | expire | disabled | task =>
      exact ⟨inUse.undrained, inUse.working⟩
  | _ => cases internal

theorem InUse.run (inUse : InUse pipeline) {actions : List Action}
    (internal : ∀ action ∈ actions, Action.Internal action)
    (ran : run pipeline actions = some after) : InUse after := by
  have guarded : Runs.Guarded Pipeline.step
      (fun _ action => Action.Internal action) pipeline actions :=
    Runs.guarded_of_all fun action member _ => internal action member
  exact Runs.invariant
    (fun _ _ _ (inUse : InUse _) internal stepped =>
      inUse.step internal stepped)
    inUse guarded ran

/-! ## Drain alone -/

/-- Nothing but `drain` is running. -/
structure Alone (pipeline : Pipeline) : Prop where
  able : Able pipeline
  answered : Answered pipeline
  ended : ∀ point ∈ pipeline.tasks, point = .done

/-- A lock that the puller does not hold is free. -/
theorem Alone.lock_eq (alone : Alone pipeline) {p : Priority}
    (away : ¬ pipeline.puller.point.Holds p) :
    (pipeline.queues p).lock = none := by
  by_contra locked
  rcases alone.able.ready.flusher alone.answered locked with
    ⟨flusher, held⟩
  have holds := (alone.able.ready.owned p flusher).1 held
  cases flusher with
  | puller => exact away holds
  | disable task =>
      rcases holds with ⟨point, at_, holds⟩
      rw [alone.ended point (List.mem_of_getElem? at_)] at holds
      exact holds

/-- How far `drain` has got. -/
inductive Sweeps (pipeline : Pipeline) : Prop where
  | locks (p : Priority) (point : pipeline.puller.point = .drainLock p)
  | gathers (begun : Pipeline) (point : Emptying pipeline.puller.point)
      (gathers : Gathers begun pipeline)
  | unlocks (p : Priority) (point : pipeline.puller.point = .drainUnlock p)
      (bare : ∀ q, (pipeline.queues q).Bare)
  | done (point : pipeline.puller.point = .idle)
      (drained : pipeline.puller.drained = true)
      (bare : ∀ q, (pipeline.queues q).Bare)

/-- While `drain` empties the queues it goes on until it releases them. -/
theorem emptying_pull {aged : Bool}
    (emptying : Emptying pipeline.puller.point)
    (stepped : pipeline.pullStep aged = some after) :
    Emptying after.puller.point ∨
      after.puller.point = .drainUnlock .high := by
  have goes : ∀ {p : Priority} {point : Priority → PullPoint}
      {last : PullPoint}, (∀ q, Emptying (point q)) →
        (Emptying last ∨ last = .drainUnlock .high) →
          Emptying (next p point last) ∨
            next p point last = .drainUnlock .high := by
    intro p point last points final
    unfold next
    split
    · exact Or.inl (points _)
    · exact final
  cases at_ : pipeline.puller.point with
  | drainFlush p =>
      simp only [pullStep, at_] at stepped
      rcases onTo_eq stepped with ⟨queue, moved, rfl⟩
      exact goes (fun _ => trivial) (Or.inl trivial)
  | drainLook p =>
      simp only [pullStep, at_] at stepped
      split at stepped
      · cases stepped
        exact Or.inl trivial
      · cases stepped
        exact goes (fun _ => trivial) (Or.inr rfl)
  | drainTake p =>
      simp only [pullStep, at_] at stepped
      rcases onTo_eq stepped with ⟨queue, moved, rfl⟩
      exact Or.inl trivial
  | _ =>
      rw [at_] at emptying
      cases emptying

/-- A flusher that releases the lock leaves the batches alone. -/
theorem release_bare {p : Priority} {queue later : Queue}
    {flusher : Flusher} (sound : Sound p queue) (bare : queue.Bare)
    (stepped : queue.step (.release flusher) = some later) :
    later.Bare := by
  cases sound.stepped stepped with
  | release flusher held => exact ⟨bare.booked, bare.ring, bare.hand⟩

theorem Sweeps.pull {aged : Bool} (sweeps : Sweeps pipeline)
    (ready : Ready pipeline) (later : Ready after)
    (stepped : pipeline.pullStep aged = some after) : Sweeps after := by
  cases sweeps with
  | locks p at_ =>
      simp only [pullStep, at_] at stepped
      rcases onTo_eq stepped with ⟨queue, moved, rfl⟩
      cases under : p.lower with
      | some q =>
          apply Sweeps.locks q
          simp only [next, under]
      | none =>
          have last : next p PullPoint.drainLock (.drainFlush .high) =
              .drainFlush .high := by
            rw [next, under]
          refine Sweeps.gathers _ ?_ (gathers_start later last)
          change Emptying (next p PullPoint.drainLock _)
          rw [last]
          trivial
  | gathers begun at_ gathers =>
      have moved := gathers.pull at_ later stepped
      rcases emptying_pull at_ stepped with emptying | ended
      · exact .gathers begun emptying moved
      · exact .unlocks .high ended (moved.bare ended)
  | unlocks p at_ bare =>
      simp only [pullStep, at_] at stepped
      split at stepped
      · rename_i middle first
        rcases onTo_eq first with ⟨queue, moved, rfl⟩
        cases stepped
        have released : ∀ q,
            (Priority.update pipeline.queues p queue q).Bare := by
          intro q
          rw [Priority.update_apply]
          split
          · exact release_bare (ready.sound p) (bare p) moved
          · exact bare q
        cases under : p.lower with
        | some q =>
            refine .unlocks q ?_ released
            simp only [next, under]
        | none =>
            have last : next p PullPoint.drainUnlock .idle = .idle := by
              rw [next, under]
            exact .done last (by simp only [last]; rfl) released
      · cases stepped
  | done at_ drained bare =>
      simp only [pullStep, at_] at stepped
      cases stepped

/-- `drain` alone goes on until it has released the last lock. -/
theorem Alone.drains (alone : Alone pipeline) (sweeps : Sweeps pipeline) :
    ∃ actions final, (∀ action ∈ actions, Action.Internal action) ∧
      run pipeline actions = some final ∧
        (Alone final ∧ Sweeps final) ∧
          final.puller.point = .idle := by
  refine Runs.reaches_of_rank Nat.lt_wfRel.wf serveTurns
    (fun state => Alone state ∧ Sweeps state)
    (fun state => state.puller.point = .idle) ?_ ⟨alone, sweeps⟩
  rintro state ⟨alone, sweeps⟩ pending
  have busy : ¬ Resting state := by
    rintro ⟨rests, _⟩
    cases sweeps with
    | locks p at_ | unlocks p at_ bare =>
        rw [at_] at rests
        cases rests
    | gathers begun at_ gathers =>
        revert rests at_
        cases state.puller.point <;> simp [Emptying, PullPoint.Rests]
    | done at_ drained bare => exact pending at_
  have free : ∀ p, state.puller.point.Asks p →
      (state.queues p).lock = none := by
    intro p asks
    apply alone.lock_eq
    rcases asks with at_ | at_ <;> rw [at_]
    · exact Nat.lt_irrefl _
    · exact id
  rcases alone.able.ready.puller_closer busy free with
    ⟨after, stepped, closer, answered⟩
  have able : Able after :=
    alone.able.step (show state.step (.puller true) = some after from stepped)
  refine ⟨.puller true, after, trivial, stepped, ⟨?_, ?_⟩, closer⟩
  · refine ⟨able, answered alone.answered, ?_⟩
    rw [(pullStep_pulls stepped).tasks.1]
    exact alone.ended
  · exact sweeps.pull alone.able.ready able.ready stepped

/-! ## Everything is handed out -/

/-- The pipeline has been disabled and drained, and nothing is going on. -/
structure Stopped (pipeline : Pipeline) : Prop where
  completed : Completed pipeline
  disabled : pipeline.disabled = true
  drained : pipeline.puller.drained = true
  bare : ∀ p, (pipeline.queues p).Bare
  /-- Nothing of an accepted message that blocks waits or was discarded. -/
  accounted : ∀ p, ∃ gone, Accounted (pipeline.queues p) gone [] []

/-- All shares of a bare queue are in batches that have left it. -/
theorem bare_accounted {p : Priority} {queue : Queue}
    (bare : queue.Bare) (sound : Sound p queue) :
    ∃ gone, Accounted queue gone [] [] := by
  rcases sound.accounted with ⟨gone, waiting, current, accounted⟩
  have none : current = [] := accounted.unbooked bare.booked
  have empty : waiting = [] := by
    have present := accounted.present
    rw [bare.hand, bare.ring] at present
    exact List.forall₂_nil_left_iff.1 present
  rw [none, empty] at accounted
  exact ⟨gone, accounted⟩

/-- What `Sender::stop` and the write task do in addition. -/
def Action.Stopping (action : Action) : Prop :=
  Action.Internal action ∨ action = .cancelPull ∨ action = .drain

/-- `drain` is called when nothing is going on. -/
theorem Able.starts (able : Able pipeline)
    (completed : Completed pipeline)
    (idle : pipeline.puller.point = .idle)
    (undrained : pipeline.puller.drained = false) :
    ∃ after, pipeline.step .drain = some after ∧ Alone after ∧
      Sweeps after := by
  have stepped : pipeline.step .drain =
      some (pipeline.goTo (.drainLock .high)) := by
    simp only [Pipeline.step, undrained, startAt, idle, if_true]
    rfl
  exact ⟨_, stepped,
    ⟨able.step stepped, completed.answered, completed.ended⟩,
    .locks .high rfl⟩

/-- The `pull` that waits is dropped, and `drain` is called. -/
theorem Completed.starts (completed : Completed pipeline)
    (able : Able pipeline) (inUse : InUse pipeline) :
    ∃ actions after, (∀ action ∈ actions, Action.Stopping action) ∧
      run pipeline actions = some after ∧ Alone after ∧ Sweeps after := by
  have rests := completed.resting.1
  have working := inUse.working
  cases at_ : pipeline.puller.point with
  | idle =>
      rcases able.starts completed at_ inUse.undrained with
        ⟨after, stepped, alone, sweeps⟩
      refine ⟨[.drain], after, ?_, ?_, alone, sweeps⟩
      · simp [Action.Stopping]
      · exact run_cons stepped []
  | parked =>
      have cancelled : pipeline.step .cancelPull =
          some (pipeline.goTo .idle) := by
        simp only [step, cancelPull, at_]
      have quiet : Completed (pipeline.goTo .idle) :=
        { completed with resting := ⟨trivial, rfl⟩ }
      rcases (able.step cancelled).starts quiet rfl inUse.undrained with
        ⟨after, stepped, alone, sweeps⟩
      refine ⟨[.cancelPull, .drain], after, ?_, ?_, alone, sweeps⟩
      · simp [Action.Stopping]
      · exact (run_cons cancelled _).trans (run_cons stepped [])
  | gone =>
      rw [at_] at working
      cases working
  | _ =>
      rw [at_] at rests
      cases rests

theorem Did.tasks_ne (did : Did pipeline action after)
    (called : pipeline.tasks ≠ []) : after.tasks ≠ [] := by
  cases did with
  | puller aged after pulls =>
      rw [pulls.tasks.1]
      exact called
  | disable => exact List.append_ne_nil_of_right_ne_nil _ (by simp)
  | disabled task at_ => simpa using called
  | task task p act point queue disables stepped => simpa using called
  | _ => exact called

/-- A task that has ended has disabled the pipeline. -/
theorem disabled_of_run {capacity batchSize : Nat}
    {actions more : List Action}
    (ran : run (new capacity batchSize) actions = some pipeline)
    (called : pipeline.tasks ≠ []) (went : run pipeline more = some after)
    (ended : ∀ point ∈ after.tasks, point = .done) :
    after.disabled = true := by
  have initially : Disabling (new capacity batchSize) :=
    fun _ point member => by cases member
  have disabling : Disabling pipeline :=
    Runs.invariant_of_step
      (fun _ _ _ (disabling : Disabling _) stepped =>
        (step_did stepped).disabling disabling) initially ran
  have both : Disabling after ∧ after.tasks ≠ [] :=
    Runs.invariant_of_step
      (fun state _ _ (both : Disabling state ∧ state.tasks ≠ []) stepped =>
        ⟨(step_did stepped).disabling both.1,
          (step_did stepped).tasks_ne both.2⟩)
      ⟨disabling, called⟩ went
  rw [← Bool.not_eq_false]
  intro enabled
  rcases List.exists_mem_of_ne_nil _ both.2 with ⟨point, member⟩
  have set := both.1 enabled point member
  rw [ended point member] at set
  cases set

/-- `drain` has ended and has left nothing behind. -/
theorem Alone.stopped (alone : Alone pipeline) (sweeps : Sweeps pipeline)
    (idle : pipeline.puller.point = .idle)
    (disabled : pipeline.disabled = true) : Stopped pipeline := by
  cases sweeps with
  | locks p at_ | unlocks p at_ bare =>
      rw [idle] at at_
      cases at_
  | gathers begun at_ gathers =>
      rw [idle] at at_
      cases at_
  | done at_ drained bare =>
      have completed : Completed pipeline :=
        { answered := alone.answered
          unlocked := fun p => alone.lock_eq (by rw [idle]; exact id)
          ended := alone.ended
          resting := ⟨by rw [idle]; trivial, by rw [wakes, idle]; rfl⟩ }
      exact ⟨completed, disabled, drained, bare,
        fun p => bare_accounted (bare p) (alone.able.ready.sound p)⟩

/--
As long as `PipelineTxOut` is in use the pipeline can be stopped without loss:
once `disable` has been called there is a run in which nothing new is pushed,
after which every push and every task has ended, `drain` has returned and all
queues are bare.  Every push that was there has ended, as it had if it had before,
and all bytes of an accepted message that blocks are in batches handed out.
-/
theorem stops_of_run {capacity batchSize : Nat}
    (least : 19 ≤ batchSize) (small : batchSize ≤ 65535)
    {actions : List Action}
    (ran : run (new capacity batchSize) actions = some pipeline)
    (inUse : InUse pipeline) :
    ∃ more final, (∀ action ∈ more, Action.Stopping action) ∧
      run pipeline (.disable :: more) = some final ∧
        Stopped final ∧ Endures pipeline final := by
  have able := able_of_run least small ran
  have asked : pipeline.step .disable = some
      { pipeline with tasks := pipeline.tasks ++ [.set] } := rfl
  have called := List.append_ne_nil_of_right_ne_nil pipeline.tasks
    (List.cons_ne_nil TaskPoint.set [])
  rcases (able.step asked).returns with
    ⟨first, answering, firstInternal, begins, able, answered⟩
  rcases able.completes answered with
    ⟨second, resting, secondInternal, goes, ⟨able, _⟩, completed⟩
  have asking : InUse { pipeline with tasks := pipeline.tasks ++ [.set] } :=
    ⟨inUse.undrained, inUse.working⟩
  have working :=
    (asking.run firstInternal begins).run secondInternal goes
  rcases completed.starts able working with
    ⟨third, draining, thirdStopping, starts, alone, sweeps⟩
  rcases alone.drains sweeps with
    ⟨last, final, lastInternal, ends, ⟨alone, sweeps⟩, idle⟩
  -- the four parts of the run one after the other
  have went := (Runs.run_append begins (second ++ (third ++ last))).trans
    ((Runs.run_append goes (third ++ last)).trans
      ((Runs.run_append starts last).trans ends))
  have stopping := (run_cons asked _).trans went
  refine ⟨first ++ (second ++ (third ++ last)), final, ?_, stopping,
    ?_, ?_⟩
  · simp only [List.forall_mem_append]
    exact ⟨fun action member => .inl (firstInternal action member),
      fun action member => .inl (secondInternal action member),
      thirdStopping, fun action member => .inl (lastInternal action member)⟩
  · exact alone.stopped sweeps idle
      (disabled_of_run (Runs.run_concat ran asked) called went alone.ended)
  · exact endures_of_run (able_of_run least small ran).ready stopping

/-- The puller waits when a message that blocks has been accepted. -/
theorem stops_of_run_accepted :
    ∃ pipeline : Pipeline,
      (pipeline.puller.point = .parked ∧
        (pipeline.queues .high).waiting.length = 1 ∧
          accepted (pipeline.queues .high).stage.log = [[1, 2, 3]]) ∧
        ∃ more final, (∀ action ∈ more, Action.Stopping action) ∧
          run pipeline (.disable :: more) = some final ∧
            Stopped final ∧ Endures pipeline final := by
  have passed : (run (new 1 100)
      (.pull .pull :: List.replicate 8 (.puller false) ++
        .call shortMessage ⟨0⟩ :: List.replicate 12 (.push .high 0))).any
          (fun pipeline => Decidable.decide
            ((pipeline.puller.drained = false ∧
              pipeline.puller.point = .parked) ∧
              (pipeline.queues .high).waiting.length = 1 ∧
                accepted (pipeline.queues .high).stage.log =
                  [[1, 2, 3]])) = true := by
    decide +kernel
  rcases Runs.exists_of_any passed with ⟨pipeline, ran, met⟩
  rcases of_decide_eq_true met with ⟨⟨undrained, parked⟩, one, accepted⟩
  have inUse : InUse pipeline := ⟨undrained, by rw [parked]; trivial⟩
  exact ⟨pipeline, ⟨parked, one, accepted⟩,
    stops_of_run (by decide) (by decide) ran inUse⟩

end Pipeline
end Tx
end Thubo
