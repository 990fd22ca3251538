import Thubo.Pipeline.Conservation

/-!
# Recovery from congestion

A push whose wait for the lock or a batch ends in vain sets the congestion
bit of its priority, and the puller clears it with the next batch that it
takes.  The bit is clear on an idle priority when it is set only while
another batch is still to be taken.
-/

namespace Thubo
namespace Tx

/-! ## Batches still to be taken -/

/-- `StageRefill::pull` has a batch to give. -/
def Pool.supplies (pool : Pool) : Bool :=
  !pool.refill.isEmpty || decide (pool.allocated < pool.capacity)

/-- A push has returned or its future has been dropped. -/
def Call.finished (c : Call) : Bool :=
  match c.point with
  | .done _ | .gone => true
  | _ => false

namespace Queue

/-- The next step of a push sets the congestion bit. -/
def congests (queue : Queue) (call : Nat) : Bool :=
  match queue.calls[call]? with
  | some ⟨_, _, _, .congest _, _⟩ => true
  | _ => false

/-- The push that holds the lock is about to be given a batch. -/
def supplied (queue : Queue) : Bool :=
  match queue.lock with
  | some (.push _ .acquire) => queue.pool.supplies
  | some (.push _ .pop) => true
  | _ => false

/-- A batch is committed, booked or about to be booked. -/
def due (queue : Queue) : Bool :=
  !queue.pool.ring.isEmpty || queue.pool.booked.isSome ||
    queue.pool.spare.isSome || queue.supplied

/-- No push is in progress, and every batch is in the refill ring. -/
structure Quiescent (queue : Queue) : Prop where
  ended : ∀ c ∈ queue.calls, c.finished = true
  spare : queue.pool.spare = none
  booked : queue.pool.booked = none
  ring : queue.pool.ring = []
  hand : queue.pool.hand = none
  held : queue.pool.held = []

instance (queue : Queue) : Decidable queue.Quiescent :=
  decidable_of_iff
    ((∀ c ∈ queue.calls, c.finished = true) ∧ queue.pool.spare = none ∧
      queue.pool.booked = none ∧ queue.pool.ring = [] ∧
      queue.pool.hand = none ∧ queue.pool.held = [])
    ⟨fun ⟨ended, spare, booked, ring, hand, held⟩ =>
        ⟨ended, spare, booked, ring, hand, held⟩,
      fun ⟨ended, spare, booked, ring, hand, held⟩ =>
        ⟨ended, spare, booked, ring, hand, held⟩⟩

end Queue

variable {p : Priority} {queue later : Queue} {act : Queue.Action}

/-- A batch is due for one of a few reasons. -/
theorem Queue.due_iff :
    queue.due = true ↔
      queue.pool.ring ≠ [] ∨ queue.pool.booked.isSome ∨
        queue.pool.spare.isSome ∨ queue.supplied = true := by
  simp [due, or_assoc]

/-- The push that holds the lock is given a batch at two points only. -/
theorem Holding.supplied {call : Nat} {inside : Inside}
    (holding : Holding queue call inside)
    (supplied : queue.supplied = true) :
    (inside = .acquire ∧ queue.pool.supplies = true) ∨ inside = .pop := by
  unfold Queue.supplied at supplied
  rw [holding.lock] at supplied
  cases inside with
  | acquire => exact Or.inl ⟨rfl, supplied⟩
  | pop => exact Or.inr rfl
  | _ => cases supplied

/-- A batch stays due when nobody takes it. -/
theorem Stepped.due (stepped : Stepped queue act later)
    (take : act ≠ .take) (collect : act ≠ .collect)
    (due : queue.due = true) : later.due = true := by
  rw [Queue.due_iff] at due ⊢
  -- the pool stays, and the push at the lock was not about to take a batch
  have stays : ∀ {call : Nat} {inside : Inside},
      Holding queue call inside → inside ≠ .acquire → inside ≠ .pop →
      later.pool = queue.pool →
        later.pool.ring ≠ [] ∨ later.pool.booked.isSome ∨
          later.pool.spare.isSome ∨ later.supplied = true := by
    intro call inside holding acquire pop pool
    rw [pool]
    rcases due with ring | booked | spare | supplied
    · exact Or.inl ring
    · exact Or.inr (Or.inl booked)
    · exact Or.inr (Or.inr (Or.inl spare))
    · rcases holding.supplied supplied with ⟨at_, _⟩ | at_
      · exact absurd at_ acquire
      · exact absurd at_ pop
  cases stepped with
  | enter call c backoff closed found point free idle =>
      rcases due with ring | booked | spare | supplied
      · exact Or.inl ring
      · exact Or.inr (Or.inl booked)
      · exact Or.inr (Or.inr (Or.inl spare))
      · simp [Queue.supplied, free] at supplied
  | quiet call backoff closed here there after holding goes inner =>
      cases goes with
      | reuse booked =>
          rw [inner]
          exact Or.inr (Or.inl booked)
      | recycle free recycled =>
          rw [inner]
          exact Or.inr (Or.inr (Or.inr rfl))
      | _ =>
          refine stays holding (by simp) (by simp) ?_
          rw [inner]
  | allocate call backoff closed holding free dry =>
      rcases due with ring | booked | spare | supplied
      · left
        dsimp only [Pool.allocate]
        split <;> exact ring
      · rw [free] at booked
        cases booked
      · right
        right
        left
        dsimp only [Pool.allocate]
        split
        · rfl
        · exact spare
      · right
        right
        left
        rcases holding.supplied supplied with ⟨_, supplies⟩ | impossible
        · simp only [Pool.supplies, dry, List.isEmpty_nil, Bool.not_true,
            Bool.false_or, decide_eq_true_eq] at supplies
          dsimp only [Pool.allocate]
          split
          · rfl
          · rename_i taken
            rw [not_and] at taken
            exact Option.isSome_iff_ne_none.2 (taken supplies)
        · cases impossible
  | pop call backoff closed pool holding popped =>
      rcases Pool.popRefill_eq popped with ⟨slot, first, bare, same⟩
      rw [same]
      exact Or.inr (Or.inr (Or.inl rfl))
  | book call backoff closed pool holding booked =>
      rcases Pool.book_eq booked with ⟨id, bare, free, rfl⟩
      exact Or.inr (Or.inl rfl)
  | commit call backoff closed flush stage batch pool holding resumed out
      free push running log committed =>
      rcases Pool.commit_eq committed with ⟨id, taken, rfl⟩
      exact Or.inl (List.append_ne_nil_of_right_ne_nil _ (by simp))
  | update call backoff closed stage batch bytes push holding resumed kept
      booked running idle log =>
      exact stays holding (by simp) (by simp) rfl
  | broke call backoff closed stage batch push holding resumed kept booked
      running idle log =>
      exact stays holding (by simp) (by simp) rfl
  | close call backoff stage holding abandoned =>
      exact stays holding (by simp) (by simp) rfl
  | fail call backoff closed stage error flags holding abandoned flagged =>
      exact stays holding (by simp) (by simp) rfl
  | unlock call backoff closed result holding =>
      exact stays holding (by simp) (by simp) rfl
  | expire call holding => exact stays holding (by simp) (by simp) rfl
  | cancel call stage holding abandoned =>
      exact stays holding (by simp) (by simp) rfl
  | lock flusher free =>
      rcases due with ring | booked | spare | supplied
      · exact Or.inl ring
      · exact Or.inr (Or.inl booked)
      · exact Or.inr (Or.inr (Or.inl spare))
      · simp [Queue.supplied, free] at supplied
  | flush flusher batch pool locked idle booked committed =>
      rcases Pool.commit_eq committed with ⟨id, taken, rfl⟩
      exact Or.inl (List.append_ne_nil_of_right_ne_nil _ (by simp))
  | release flusher locked =>
      rcases due with ring | booked | spare | supplied
      · exact Or.inl ring
      · exact Or.inr (Or.inl booked)
      · exact Or.inr (Or.inr (Or.inl spare))
      · simp [Queue.supplied, locked] at supplied
  | take pool taken => exact absurd rfl take
  | decide congested slot pool hand kept =>
      rcases Pool.keep_eq kept with ⟨found, first, rfl⟩
      exact due
  | collect slot taken pool took hand kept => exact absurd rfl collect
  | put slot pool put =>
      rcases Pool.put_eq put with ⟨held, rfl⟩
      rcases due with ring | booked | spare | supplied
      · exact Or.inl ring
      · exact Or.inr (Or.inl booked)
      · exact Or.inr (Or.inr (Or.inl spare))
      · right
        right
        right
        unfold Queue.supplied at supplied ⊢
        dsimp only
        split at supplied
        · simp [Pool.supplies]
        · rfl
        · cases supplied
  | _ => exact due

/-- The congestion bit is set by a push that gives up, and by no other. -/
theorem Stepped.congested (stepped : Stepped queue act later)
    (congested : later.congested = true) :
    queue.congested = true ∨
      ∃ call backoff closed, act = .push call backoff closed ∧
        queue.congests call = true := by
  cases stepped with
  | congest call c backoff closed error found point =>
      right
      refine ⟨call, backoff, closed, rfl, ?_⟩
      rcases c with ⟨msg, qos, since, place, turn⟩
      cases point
      unfold Queue.congests
      rw [found]
  | quiet call backoff closed here there after holding goes inner =>
      rw [inner] at congested
      exact Or.inl congested
  | uncongest => cases congested
  | _ => exact Or.inl congested

/-! ## Idle priorities -/

/-- No push holds the lock of an idle priority. -/
theorem Sound.unheld (sound : Sound p queue)
    (quiescent : queue.Quiescent) (call : Nat) (inside : Inside) :
    queue.lock ≠ some (.push call inside) := by
  intro locked
  rcases sound.logged.holder call ⟨inside, locked⟩ with
    ⟨c, turn, found, at_, _⟩
  have finished := quiescent.ended c (List.mem_of_getElem? found)
  rw [Call.finished, at_] at finished
  cases finished

/-- No batch of an idle priority is due. -/
theorem Sound.not_due (sound : Sound p queue)
    (quiescent : queue.Quiescent) : queue.due ≠ true := by
  intro due
  rcases Queue.due_iff.1 due with ring | booked | spare | supplied
  · exact ring quiescent.ring
  · rw [quiescent.booked] at booked
    cases booked
  · rw [quiescent.spare] at spare
    cases spare
  · unfold Queue.supplied at supplied
    split at supplied
    · rename_i call locked
      exact sound.unheld quiescent call .acquire locked
    · rename_i call locked
      exact sound.unheld quiescent call .pop locked
    · cases supplied

/-- The congestion bit turns no message away. -/
theorem Queue.admits (clear : queue.congested = false) (msg : Bytes)
    (qos : QoS) (since : Since) (backoff closed : Bool) :
    Runs.run Queue.step queue
        [.call msg qos since, .push queue.calls.length backoff closed] =
      some
        { queue with
          calls := queue.calls ++ [⟨msg, qos, since, .tryLock, none⟩] } := by
  have open_ : ¬ (qos.congestionControl = .drop ∧ queue.congested) := by
    rw [clear]
    simp
  simp [Runs.run, Queue.step, Queue.pushStep, open_, Queue.goTo,
    List.modify_eq_take_drop]

/-! ## The puller clears the bit -/

namespace Pipeline

variable {pipeline after : Pipeline} {action : Action}

/-- The puller has taken a batch and is about to clear the bit. -/
def Clearing (p : Priority) (pipeline : Pipeline) : Prop :=
  pipeline.puller.point = .clear p ∧
    (pipeline.queues p).pool.hand.isSome

instance (p : Priority) (pipeline : Pipeline) :
    Decidable (Clearing p pipeline) :=
  inferInstanceAs (Decidable (_ ∧ _))

/-- The bit of a priority that is set is still to be cleared. -/
def Recovering (p : Priority) (pipeline : Pipeline) : Prop :=
  (pipeline.queues p).congested = true →
    (pipeline.queues p).due = true ∨ Clearing p pipeline

/--
The bit of a priority is set only when it is still to be cleared, and `drain`
takes no batch of a priority whose bit is set.
-/
def Recovers (p : Priority) (pipeline : Pipeline) : Action → Prop
  | .push q call =>
      q = p → (pipeline.queues p).congests call = true →
        (pipeline.queues p).due = true ∨ Clearing p pipeline
  | .puller _ =>
      pipeline.puller.point = .drainTake p →
        (pipeline.queues p).congested = false
  | _ => True

instance (p : Priority) : DecidableRel (Recovers p)
  | _, .push _ _ => inferInstanceAs (Decidable (_ → _ → _ ∨ _))
  | _, .puller _ => inferInstanceAs (Decidable (_ → _))
  | _, .call _ _ | _, .expire _ _ | _, .cancel _ _ | _, .pull _
  | _, .refill _ _ | _, .cancelPull | _, .drain | _, .drop
  | _, .disable | _, .task _ => .isTrue trivial

theorem ne_clear {here : PullPoint} (at_ : pipeline.puller.point = here)
    (other : here ≠ .clear p) : pipeline.puller.point ≠ .clear p := by
  rw [at_]
  exact other

/-- The queue stays, and the puller is not about to clear the bit. -/
theorem Recovering.stay (recovering : Recovering p pipeline)
    (queue : after.queues p = pipeline.queues p)
    (elsewhere : pipeline.puller.point ≠ .clear p) :
    Recovering p after := by
  intro congested
  rw [queue] at congested ⊢
  rcases recovering congested with due | clearing
  · exact Or.inl due
  · exact absurd clearing.1 elsewhere

/-- A queue takes a step that takes no batch out of its ring. -/
theorem Recovering.move (recovering : Recovering p pipeline)
    (sound : ∀ q, Sound q (pipeline.queues q)) {q : Priority}
    (stepped : (pipeline.queues q).step act = some queue)
    (take : act ≠ .take) (collect : act ≠ .collect)
    (queues : after.queues = Priority.update pipeline.queues q queue)
    (sets : ∀ call backoff closed, act = .push call backoff closed →
      q = p → (pipeline.queues p).congests call = true →
        (pipeline.queues p).due = true ∨ Clearing p pipeline)
    (clears : Clearing p pipeline → Clearing p after) :
    Recovering p after := by
  have due : (pipeline.queues p).due = true →
      (after.queues p).due = true := by
    intro due
    rw [queues, Priority.update_apply]
    split
    · rename_i same
      subst same
      exact ((sound p).stepped stepped).due take collect due
    · exact due
  have still : (pipeline.queues p).due = true ∨ Clearing p pipeline →
      (after.queues p).due = true ∨ Clearing p after := by
    rintro (before | before)
    · exact Or.inl (due before)
    · exact Or.inr (clears before)
  intro congested
  apply still
  rw [queues, Priority.update_apply] at congested
  split at congested
  · rename_i same
    subst same
    rcases ((sound p).stepped stepped).congested congested with
      before | ⟨call, backoff, closed, is, congests⟩
    · exact recovering before
    · exact sets call backoff closed is rfl congests
  · exact recovering congested

/-- A step of a push leaves alone what the puller is about to clear. -/
theorem Clearing.push (clearing : Clearing p pipeline)
    (sound : ∀ q, Sound q (pipeline.queues q)) {q : Priority}
    (stepped : (pipeline.queues q).step act = some queue)
    (pushing : act.Pushing)
    (puller : after.puller = pipeline.puller)
    (queues : after.queues = Priority.update pipeline.queues q queue) :
    Clearing p after := by
  constructor
  · rw [puller]
    exact clearing.1
  · rw [queues, Priority.update_apply]
    split
    · rename_i same
      subst same
      rw [(((sound p).stepped stepped).apart pushing).1]
      exact clearing.2
    · exact clearing.2

/-- A step of a push or of a task that disables the pipeline. -/
theorem Recovering.push (recovering : Recovering p pipeline)
    (sound : ∀ q, Sound q (pipeline.queues q)) {q : Priority}
    (stepped : (pipeline.queues q).step act = some queue)
    (pushing : act.Pushing)
    (sets : ∀ call backoff closed, act = .push call backoff closed →
      q = p → (pipeline.queues p).congests call = true →
        (pipeline.queues p).due = true ∨ Clearing p pipeline)
    (puller : after.puller = pipeline.puller)
    (queues : after.queues = Priority.update pipeline.queues q queue) :
    Recovering p after := by
  refine recovering.move sound stepped ?_ ?_ queues sets fun clearing =>
    clearing.push sound stepped pushing puller queues
  · rintro rfl
    cases pushing
  · rintro rfl
    cases pushing

/-- A step of the puller that takes no batch and clears no bit. -/
theorem Recovering.pull (recovering : Recovering p pipeline)
    (sound : ∀ q, Sound q (pipeline.queues q)) {q : Priority}
    (stepped : (pipeline.queues q).step act = some queue)
    (push : ∀ call backoff closed, act ≠ .push call backoff closed)
    (take : act ≠ .take) (collect : act ≠ .collect)
    (elsewhere : pipeline.puller.point ≠ .clear p)
    (queues : after.queues = Priority.update pipeline.queues q queue) :
    Recovering p after := by
  refine recovering.move sound stepped take collect queues ?_ ?_
  · intro call backoff closed is
    exact absurd is (push call backoff closed)
  · intro clearing
    exact absurd clearing.1 elsewhere

/-- What the puller does at its points keeps the bit to be cleared. -/
theorem Goes.recovering {q : Priority} {point : PullPoint}
    (goes : Goes pipeline q act point)
    (sound : ∀ q, Sound q (pipeline.queues q))
    (stepped : (pipeline.queues q).step act = some queue)
    (undrained : pipeline.puller.point = .drainTake p →
      (pipeline.queues p).congested = false)
    (recovering : Recovering p pipeline) :
    Recovering p { pipeline with
      queues := Priority.update pipeline.queues q queue
      puller := { pipeline.puller with point := point } } := by
  have other : p ≠ q → pipeline.puller.point ≠ .clear p →
      Recovering p { pipeline with
        queues := Priority.update pipeline.queues q queue
        puller := { pipeline.puller with point := point } } := by
    intro distinct away
    exact recovering.stay (Priority.update_other _ distinct _) away
  cases goes with
  | take q at_ =>
      by_cases same : p = q
      · subst same
        intro _
        right
        refine ⟨rfl, ?_⟩
        dsimp only
        rw [Priority.update_same]
        cases (sound p).stepped stepped with
        | take pool taken =>
            rcases Pool.take_eq taken with ⟨slot, first, free, became⟩
            rw [became]
            rfl
      · exact other same (ne_clear at_ (by simp))
  | clear place slot at_ hand =>
      have priority := (sound place).inspected slot (Or.inr hand)
      by_cases same : p = place
      · subst same
        intro congested
        dsimp only at congested
        cases (sound _).stepped stepped
        rw [priority, Priority.update_same] at congested
        cases congested
      · rw [← priority] at same
        refine other same (ne_clear at_ ?_)
        rw [priority] at same
        intro impossible
        cases impossible
        exact same rfl
  | drainTake q at_ =>
      by_cases same : p = q
      · subst same
        intro congested
        dsimp only at congested
        rw [Priority.update_same] at congested
        rcases ((sound p).stepped stepped).congested congested with
          before | ⟨call, backoff, closed, is, _⟩
        · rw [undrained at_] at before
          cases before
        · cases is
      · exact other same (ne_clear at_ (by simp))
  | _ =>
      exact recovering.pull sound stepped (by simp) (by simp) (by simp)
        (ne_clear (by assumption) (by simp)) rfl

theorem Pulls.recovering (pulls : Pulls pipeline after)
    (sound : ∀ q, Sound q (pipeline.queues q))
    (undrained : pipeline.puller.point = .drainTake p →
      (pipeline.queues p).congested = false)
    (recovering : Recovering p pipeline) : Recovering p after := by
  cases pulls with
  | goes q act point queue goes stepped =>
      exact goes.recovering sound stepped undrained recovering
  | handOut q congested slot queue point hand fate stepped =>
      exact recovering.pull sound stepped (by simp) (by simp) (by simp)
        (ne_clear point (by simp)) rfl
  | drainUnlock q queue point stepped =>
      exact recovering.pull sound stepped (by simp) (by simp) (by simp)
        (ne_clear point (by simp)) rfl
  | _ => exact recovering.stay rfl (ne_clear (by assumption) (by simp))

theorem Did.recovering (did : Did pipeline action after)
    (sound : ∀ q, Sound q (pipeline.queues q))
    (recovers : Recovers p pipeline action)
    (recovering : Recovering p pipeline) : Recovering p after := by
  cases did with
  | call msg qos queue bounded stepped =>
      refine recovering.push sound stepped trivial ?_ rfl rfl
      intro call backoff closed is
      cases is
  | push q call queue stepped =>
      refine recovering.push sound stepped trivial ?_ rfl rfl
      intro other backoff closed is same congests
      cases is
      exact recovers same congests
  | expire q call queue stepped =>
      refine recovering.push sound stepped trivial ?_ rfl rfl
      intro other backoff closed is
      cases is
  | cancel q call queue stepped =>
      refine recovering.push sound stepped trivial ?_ rfl rfl
      intro other backoff closed is
      cases is
  | pull mode idle undrained =>
      exact recovering.stay rfl (ne_clear idle (by simp))
  | refill q slot idle held =>
      exact recovering.stay rfl (ne_clear idle (by simp))
  | puller aged after pulls =>
      exact pulls.recovering sound recovers recovering
  | cancelPull waits =>
      rcases waits with ⟨q, yielding⟩ | parked
      · exact recovering.stay rfl (ne_clear yielding (by simp))
      · exact recovering.stay rfl (ne_clear parked (by simp))
  | drain idle undrained =>
      exact recovering.stay rfl (ne_clear idle (by simp))
  | drop idle =>
      exact recovering.stay rfl (ne_clear idle (by simp))
  | disable => exact recovering
  | disabled task point => exact recovering
  | task task q act point queue disables stepped =>
      refine recovering.push sound stepped ?_ ?_ rfl rfl
      · cases disables <;> trivial
      · intro call backoff closed is
        cases disables <;> cases is

/-! ## Every run -/

/-- The bit of a priority that is set is still to be cleared. -/
theorem recovering_of_run {capacity batchSize : Nat}
    (small : batchSize ≤ 65535) {actions : List Action}
    (guarded : Runs.Guarded step (Recovers p) (new capacity batchSize)
      actions)
    (ran : run (new capacity batchSize) actions = some pipeline) :
    Recovering p pipeline := by
  have keeps : ∀ before action after,
      ((∀ q, Sound q (before.queues q)) ∧ Recovering p before) →
        Recovers p before action → step before action = some after →
          (∀ q, Sound q (after.queues q)) ∧ Recovering p after := by
    intro before action after holds recovers stepped
    have did := step_did stepped
    constructor
    · intro q
      exact (did.moves q).sound (holds.1 q)
    · exact did.recovering holds.1 recovers holds.2
  refine (Runs.invariant keeps ⟨?_, ?_⟩ guarded ran).2
  · intro q
    exact sound_new q capacity small
  · intro congested
    cases congested

/--
In every run in which the bit of a priority is set only while a batch is
still to be taken, the bit is clear whenever the priority is idle, and no
message is turned away for it.
-/
theorem recovered_of_run {capacity batchSize : Nat}
    (small : batchSize ≤ 65535) (p : Priority) {actions : List Action}
    (guarded : Runs.Guarded step (Recovers p) (new capacity batchSize)
      actions)
    (ran : run (new capacity batchSize) actions = some pipeline)
    (quiescent : (pipeline.queues p).Quiescent) :
    (pipeline.queues p).congested = false ∧
      ∀ (msg : Bytes) (qos : QoS) (since : Since) (backoff closed : Bool),
        Runs.run Queue.step (pipeline.queues p)
            [.call msg qos since,
              .push (pipeline.queues p).calls.length backoff closed] =
          some
            { pipeline.queues p with
              calls := (pipeline.queues p).calls ++
                [⟨msg, qos, since, .tryLock, none⟩] } := by
  have clear : (pipeline.queues p).congested = false := by
    rw [Bool.eq_false_iff]
    intro congested
    rcases recovering_of_run small guarded ran congested with
      due | clearing
    · exact (sound_of_run small ran p).not_due quiescent due
    · have hand := clearing.2
      rw [quiescent.hand] at hand
      cases hand
  exact ⟨clear, fun msg qos since backoff closed =>
    Queue.admits clear msg qos since backoff closed⟩

/-- The batch of one message of three bytes. -/
def shortBatch : Slot :=
  ⟨0, ⟨⟨66, [0, 0, 8, 1, 0, 3, 1, 2, 3], by decide⟩, .new, ⟨8⟩, none⟩⟩

/-- A push commits the only batch. -/
def committing : List Action :=
  .call shortMessage ⟨8⟩ :: List.replicate 12 (.push .high 0)

/-- Another push waits for a batch in vain and sets the congestion bit. -/
def waiting : List Action :=
  [[Action.call shortMessage ⟨8⟩], List.replicate 3 (.push .high 1),
    [.expire .high 1], List.replicate 3 (.push .high 1)].flatten

/-- The puller takes the batch and hands it out. -/
def taking : List Action :=
  .pull .tryPull :: List.replicate 5 (.puller false)

/-- The batch is given back. -/
def givingBack : List Action :=
  .refill .high shortBatch :: List.replicate 3 (.puller false)

/-- The push gives up while the batch waits for the puller. -/
theorem recovered_of_run_committed :
    ∃ pipeline : Pipeline, (pipeline.queues .high).congested = false := by
  have guarded : Runs.Guarded step (Recovers .high) (new 1 64)
      (committing ++ waiting ++ taking ++ givingBack) := by
    decide +kernel
  have passed : (run (new 1 64)
      (committing ++ waiting ++ taking ++ givingBack)).any
        (fun pipeline => (pipeline.queues .high).Quiescent) = true := by
    decide +kernel
  rcases Runs.exists_of_any passed with ⟨pipeline, ran, quiescent⟩
  exact ⟨pipeline, (recovered_of_run (by decide) .high guarded ran
    (of_decide_eq_true quiescent)).1⟩

/--
The push gives up while the puller holds the only batch.  No push is in
progress and every batch is back, but the bit is set.
-/
theorem congested_when_idle :
    ∃ pipeline, run (new 1 64)
        (committing ++ taking ++ waiting ++ givingBack) = some pipeline ∧
      (pipeline.queues .high).Quiescent ∧
        (pipeline.queues .high).congested = true := by
  have passed : (run (new 1 64)
      (committing ++ taking ++ waiting ++ givingBack)).any
        (fun pipeline => (pipeline.queues .high).Quiescent ∧
          (pipeline.queues .high).congested = true) = true := by
    decide +kernel
  rcases Runs.exists_of_any passed with ⟨pipeline, ran, found⟩
  exact ⟨pipeline, ran, of_decide_eq_true found⟩

end Pipeline
end Tx
end Thubo
