import Thubo.Pipeline.Transmit

/-!
# What a step of the pipeline does

Every step of the pipeline is at most one step of one queue, so what holds of
a queue in every run of its own holds of it in every run of the pipeline.
-/

namespace Thubo
namespace Tx

/-- A step that is not one of the puller's. -/
def Queue.Action.Pushing : Queue.Action → Prop
  | .call .. | .push .. | .expire _ | .cancel _ | .lock _ | .flush _
  | .release _ => True
  | _ => False

namespace Pipeline

variable {pipeline after : Pipeline} {p : Priority} {action : Action}

/-- A queue stays or takes a step. -/
def QueueMoves (p : Priority) (queue later : Queue) : Prop :=
  later = queue ∨
    ∃ action : Queue.Action, action.At p ∧ queue.step action = some later

/-- The queue of one priority takes a step, and the others stay. -/
theorem queueMoves_update {q : Priority} {queue : Queue}
    {action : Queue.Action}
    (stepped : (pipeline.queues q).step action = some queue)
    (at_ : action.At q) :
    QueueMoves p (pipeline.queues p)
      (Priority.update pipeline.queues q queue p) := by
  rw [Priority.update_apply]
  split
  · rename_i same
    cases same
    exact Or.inr ⟨action, at_, stepped⟩
  · exact Or.inl rfl

theorem pushStep_eq {call : Nat}
    (stepped : pipeline.pushStep p call = some after) :
    ∃ queue, (pipeline.queues p).step
        (.push call pipeline.backoff pipeline.canPull.err) = some queue ∧
      after = { pipeline with
        queues := Priority.update pipeline.queues p queue
        canPull :=
          if (pipeline.queues p).signals call then
            pipeline.canPull.set.2
          else
            pipeline.canPull } := by
  unfold pushStep at stepped
  split at stepped
  · rename_i middle moved
    rcases on_eq moved with ⟨queue, did, rfl⟩
    refine ⟨queue, did, ?_⟩
    split at stepped
    · rename_i signals
      cases stepped
      rw [if_pos signals]
    · rename_i silent
      cases stepped
      rw [if_neg silent]
  · cases stepped

theorem startAt_eq {point : PullPoint}
    (stepped : pipeline.startAt point = some after) :
    pipeline.puller.point = .idle ∧ after = pipeline.goTo point := by
  unfold startAt at stepped
  split at stepped
  · rename_i idle
    cases stepped
    exact ⟨idle, rfl⟩
  · cases stepped

/-! ## The puller -/

/-- A step of the puller that is a step of a queue, and where it leads. -/
inductive Goes (pipeline : Pipeline) :
    Priority → Queue.Action → PullPoint → Prop where
  | take (p : Priority) (point : pipeline.puller.point = .take p) :
      Goes pipeline p .take (.clear p)
  | clear (p : Priority) (slot : Slot)
      (point : pipeline.puller.point = .clear p)
      (hand : (pipeline.queues p).pool.hand = some slot) :
      Goes pipeline slot.batch.qos.priority .uncongest
        (.decide p
          (pipeline.queues slot.batch.qos.priority).congested)
  | discard (p : Priority) (congested : Bool) (slot : Slot)
      (point : pipeline.puller.point = .decide p congested)
      (hand : (pipeline.queues p).pool.hand = some slot)
      (fate : (pipeline.queues p).fate congested slot.batch = .discarded) :
      Goes pipeline p (.decide congested) (.refill .room slot true)
  | reject (slot : Slot) (discarded : Bool)
      (point : pipeline.puller.point = .refill .room slot discarded) :
      Goes pipeline slot.batch.qos.priority (.reject slot)
        (.refill .notify slot discarded)
  | put (slot : Slot) (discarded : Bool)
      (point : pipeline.puller.point = .refill .put slot discarded) :
      Goes pipeline slot.batch.qos.priority (.put slot)
        (.refill .notify slot discarded)
  | notify (slot : Slot) (discarded : Bool)
      (point : pipeline.puller.point = .refill .notify slot discarded) :
      Goes pipeline slot.batch.qos.priority .notifyRefill
        (if discarded then .test else .idle)
  | setFlush (p : Priority) (point : pipeline.puller.point = .setFlush p) :
      Goes pipeline p .requestFlush (.tryLock p)
  | lock (p : Priority) (point : pipeline.puller.point = .tryLock p) :
      Goes pipeline p (.lock .puller) (.flush p)
  | flush (p : Priority) (point : pipeline.puller.point = .flush p) :
      Goes pipeline p (.flush .puller) (.unlock p)
  | unlock (p : Priority) (point : pipeline.puller.point = .unlock p) :
      Goes pipeline p (.release .puller) .test
  | drainLock (p : Priority)
      (point : pipeline.puller.point = .drainLock p) :
      Goes pipeline p (.lock .puller) (next p .drainLock (.drainFlush .high))
  | drainFlush (p : Priority)
      (point : pipeline.puller.point = .drainFlush p) :
      Goes pipeline p (.flush .puller)
        (next p .drainFlush (.drainLook .high))
  | drainTake (p : Priority)
      (point : pipeline.puller.point = .drainTake p) :
      Goes pipeline p .collect (.drainLook .high)
  | dropRefill (p : Priority)
      (point : pipeline.puller.point = .dropRefill p) :
      Goes pipeline p .failRefill (next p .dropRefill .gone)

/-- What the puller sees of the ring of a priority. -/
def seen (pipeline : Pipeline) (p : Priority) : Pipeline :=
  { pipeline with
    puller :=
      { pipeline.puller with
        pass := pipeline.puller.pass ++
          [⟨p, (pipeline.queues p).pool.ring,
            (pipeline.queues p).pool.booked.isSome⟩] } }

/-- What a step of the puller does. -/
inductive Pulls (pipeline : Pipeline) : Pipeline → Prop where
  | goes (p : Priority) (action : Queue.Action) (point : PullPoint)
      (queue : Queue) (goes : Goes pipeline p action point)
      (stepped : (pipeline.queues p).step action = some queue) :
      Pulls pipeline
        { pipeline with
          queues := Priority.update pipeline.queues p queue
          puller := { pipeline.puller with point := point } }
  | handOut (p : Priority) (congested : Bool) (slot : Slot) (queue : Queue)
      (point : pipeline.puller.point = .decide p congested)
      (hand : (pipeline.queues p).pool.hand = some slot)
      (fate : (pipeline.queues p).fate congested slot.batch = .handedOut)
      (stepped : (pipeline.queues p).step (.decide congested) =
        some queue) :
      Pulls pipeline
        { pipeline with
          queues := Priority.update pipeline.queues p queue
          puller := { pipeline.puller with point := .idle }
          handed := pipeline.handed ++
            [⟨p, slot, pipeline.puller.pass⟩] }
  | drainUnlock (p : Priority) (queue : Queue)
      (point : pipeline.puller.point = .drainUnlock p)
      (stepped : (pipeline.queues p).step (.release .puller) =
        some queue) :
      Pulls pipeline
        { pipeline with
          queues := Priority.update pipeline.queues p queue
          puller :=
            { pipeline.puller with
              point := next p .drainUnlock .idle
              drained := next p .drainUnlock .idle == .idle } }
  | disabled (point : pipeline.puller.point = .test)
      (disabled : pipeline.disabled = true) :
      Pulls pipeline (pipeline.goTo .idle)
  | scan (point : pipeline.puller.point = .test)
      (enabled : pipeline.disabled = false) :
      Pulls pipeline
        { pipeline with
          puller := { pipeline.puller with point := .look .high, pass := [] } }
  | found (p : Priority) (point : pipeline.puller.point = .look p)
      (ring : (pipeline.queues p).pool.ring ≠ []) :
      Pulls pipeline ((pipeline.seen p).goTo (.take p))
  | booked (p : Priority) (point : pipeline.puller.point = .look p)
      (ring : (pipeline.queues p).pool.ring = [])
      (booked : (pipeline.queues p).pool.booked.isSome) :
      Pulls pipeline ((pipeline.seen p).foundBooked p)
  | lower (p lower : Priority) (point : pipeline.puller.point = .look p)
      (ring : (pipeline.queues p).pool.ring = [])
      (free : (pipeline.queues p).pool.booked = none)
      (next : p.lower = some lower) :
      Pulls pipeline ((pipeline.seen p).goTo (.look lower))
  | nothing (p : Priority) (point : pipeline.puller.point = .look p)
      (ring : (pipeline.queues p).pool.ring = [])
      (free : (pipeline.queues p).pool.booked = none)
      (last : p.lower = none) :
      Pulls pipeline (pipeline.seen p).nothing
  | room (slot : Slot) (discarded : Bool)
      (point : pipeline.puller.point = .refill .room slot discarded)
      (room : (pipeline.queues
        slot.batch.qos.priority).pool.refillFull = false) :
      Pulls pipeline (pipeline.goTo (.refill .put slot discarded))
  | setBackoff (p : Priority)
      (point : pipeline.puller.point = .setBackoff p) :
      Pulls pipeline
        { pipeline with
          backoff := true
          puller :=
            { pipeline.puller with backoff := true, point := .yielding p } }
  | yielding (p : Priority) (point : pipeline.puller.point = .yielding p) :
      Pulls pipeline (pipeline.goTo (.load p))
  | load (p : Priority) (point : pipeline.puller.point = .load p) :
      Pulls pipeline (pipeline.load p)
  | age (p : Priority) (aged : Bool)
      (point : pipeline.puller.point = .age p) :
      Pulls pipeline (pipeline.goTo (if aged then .setFlush p else .test))
  | locked (p : Priority) (point : pipeline.puller.point = .tryLock p) :
      Pulls pipeline (pipeline.goTo .test)
  | unsetBackoff (point : pipeline.puller.point = .unsetBackoff) :
      Pulls pipeline pipeline.unsetBackoff
  | check (point : pipeline.puller.point = .check) :
      Pulls pipeline (pipeline.wait .listening)
  | listening (point : pipeline.puller.point = .listening) :
      Pulls pipeline (pipeline.wait .parked)
  | parked (point : pipeline.puller.point = .parked) :
      Pulls pipeline (pipeline.goTo .check)
  | drainFound (p : Priority)
      (point : pipeline.puller.point = .drainLook p)
      (ring : (pipeline.queues p).pool.ring ≠ []) :
      Pulls pipeline (pipeline.goTo (.drainTake p))
  | drainNothing (p : Priority)
      (point : pipeline.puller.point = .drainLook p)
      (ring : (pipeline.queues p).pool.ring = []) :
      Pulls pipeline
        (pipeline.goTo (next p .drainLook (.drainUnlock .high)))
  | dropPull (point : pipeline.puller.point = .dropPull) :
      Pulls pipeline
        ({ pipeline with canPull := pipeline.canPull.fail }.goTo
          (.dropRefill .high))

theorem Pulls.of_onTo {q : Priority} {action : Queue.Action}
    {point : PullPoint}
    (stepped : pipeline.onTo q action point = some after)
    (goes : Goes pipeline q action point) : Pulls pipeline after := by
  rcases onTo_eq stepped with ⟨queue, did, rfl⟩
  exact .goes q action point queue goes did

theorem look_pulls {q : Priority}
    (point : pipeline.puller.point = .look q) :
    Pulls pipeline (pipeline.look q) := by
  unfold look
  dsimp only
  split
  · rename_i ring
    exact .found q point ring
  · rename_i empty
    have ring : (pipeline.queues q).pool.ring = [] := not_not.1 empty
    split
    · rename_i isBooked
      exact .booked q point ring isBooked
    · rename_i unbooked
      have free : (pipeline.queues q).pool.booked = none := by
        rw [Bool.not_eq_true, Option.isSome_eq_false_iff] at unbooked
        exact Option.isNone_iff_eq_none.1 unbooked
      split
      · rename_i lower next
        exact .lower q lower point ring free next
      · rename_i last
        exact .nothing q point ring free last

theorem decide_pulls {q : Priority} {congested : Bool}
    (point : pipeline.puller.point = .decide q congested)
    (stepped : pipeline.decide q congested = some after) :
    Pulls pipeline after := by
  unfold decide at stepped
  split at stepped
  · rename_i slot hand
    split at stepped
    · rename_i fate
      exact .of_onTo stepped (.discard q congested slot point hand fate)
    · rename_i fate
      split at stepped
      · rename_i middle moved
        rcases onTo_eq moved with ⟨queue, did, rfl⟩
        cases stepped
        exact .handOut q congested slot queue point hand fate did
      · cases stepped
  · cases stepped

theorem refillStep_pulls {refilling : RefillPoint} {slot : Slot}
    {discarded : Bool}
    (point : pipeline.puller.point = .refill refilling slot discarded)
    (stepped : pipeline.refillStep slot discarded refilling = some after) :
    Pulls pipeline after := by
  cases refilling with
  | room =>
      dsimp only [refillStep] at stepped
      split at stepped
      · exact .of_onTo stepped (.reject slot discarded point)
      · rename_i room
        cases stepped
        exact .room slot discarded point (Bool.not_eq_true _ ▸ room)
  | put => exact .of_onTo stepped (.put slot discarded point)
  | notify =>
      dsimp only [refillStep] at stepped
      exact .of_onTo stepped (.notify slot discarded point)

/-- What the puller does. -/
theorem pullStep_pulls {aged : Bool}
    (stepped : pipeline.pullStep aged = some after) :
    Pulls pipeline after := by
  cases point : pipeline.puller.point <;>
    simp only [pullStep, point] at stepped
  case idle => cases stepped
  case gone => cases stepped
  case test =>
    split at stepped
    · rename_i disabled
      cases stepped
      exact .disabled point disabled
    · rename_i enabled
      cases stepped
      exact .scan point (Bool.not_eq_true _ ▸ enabled)
  case look q =>
    cases stepped
    exact look_pulls point
  case take q => exact .of_onTo stepped (.take q point)
  case clear q =>
    unfold uncongest at stepped
    split at stepped
    · rename_i slot hand
      exact .of_onTo stepped (.clear q slot point hand)
    · cases stepped
  case decide q congested => exact decide_pulls point stepped
  case refill refilling slot discarded =>
    exact refillStep_pulls point stepped
  case setBackoff q =>
    cases stepped
    exact .setBackoff q point
  case yielding q =>
    cases stepped
    exact .yielding q point
  case load q =>
    cases stepped
    exact .load q point
  case age q =>
    cases stepped
    exact .age q aged point
  case setFlush q => exact .of_onTo stepped (.setFlush q point)
  case tryLock q =>
    split at stepped
    · exact .of_onTo stepped (.lock q point)
    · cases stepped
      exact .locked q point
  case flush q => exact .of_onTo stepped (.flush q point)
  case unlock q => exact .of_onTo stepped (.unlock q point)
  case unsetBackoff =>
    cases stepped
    exact .unsetBackoff point
  case check =>
    cases stepped
    exact .check point
  case listening =>
    cases stepped
    exact .listening point
  case parked =>
    cases stepped
    exact .parked point
  case drainLock q => exact .of_onTo stepped (.drainLock q point)
  case drainFlush q => exact .of_onTo stepped (.drainFlush q point)
  case drainLook q =>
    split at stepped
    · rename_i ring
      cases stepped
      exact .drainFound q point ring
    · rename_i empty
      cases stepped
      exact .drainNothing q point (not_not.1 empty)
  case drainTake q => exact .of_onTo stepped (.drainTake q point)
  case drainUnlock q =>
    split at stepped
    · rename_i middle moved
      rcases onTo_eq moved with ⟨queue, did, rfl⟩
      cases stepped
      exact .drainUnlock q queue point did
    · cases stepped
  case dropPull =>
    cases stepped
    exact .dropPull point
  case dropRefill q => exact .of_onTo stepped (.dropRefill q point)

/-- The actions of the puller are no calls. -/
theorem Goes.at {q : Priority} {action : Queue.Action} {point : PullPoint}
    (goes : Goes pipeline q action point) (p : Priority) : action.At p := by
  cases goes <;> trivial

/-- A step of the puller is at most one step of a queue. -/
theorem Pulls.moves (pulls : Pulls pipeline after) (p : Priority) :
    QueueMoves p (pipeline.queues p) (after.queues p) := by
  cases pulls with
  | goes q action point queue goes stepped =>
      exact queueMoves_update stepped (goes.at q)
  | handOut q congested slot queue point hand fate stepped =>
      exact queueMoves_update stepped trivial
  | drainUnlock q queue point stepped =>
      exact queueMoves_update stepped trivial
  | _ => exact Or.inl rfl

/-! ## All steps -/

/-- A step of a task that disables the pipeline, and where it leads. -/
inductive Disables (pipeline : Pipeline) (task : Nat) :
    Priority → Queue.Action → TaskPoint → Prop where
  | lock (p : Priority) (point : pipeline.tasks[task]? = some (.lock p)) :
      Disables pipeline task p (.lock (.disable task))
        (nextTask p .lock (.flush .high))
  | flush (p : Priority) (point : pipeline.tasks[task]? = some (.flush p)) :
      Disables pipeline task p (.flush (.disable task))
        (nextTask p .flush (.unlock .high))
  | unlock (p : Priority)
      (point : pipeline.tasks[task]? = some (.unlock p)) :
      Disables pipeline task p (.release (.disable task))
        (nextTask p .unlock .done)

/-- What a step of the pipeline does. -/
inductive Did (pipeline : Pipeline) : Action → Pipeline → Prop where
  | call (msg : Bytes) (qos : QoS) (queue : Queue)
      (bounded : msg.len < 2 ^ 64)
      (stepped : (pipeline.queues qos.priority).step
        (.call msg qos pipeline.since) = some queue) :
      Did pipeline (.call msg qos)
        { pipeline with
          queues := Priority.update pipeline.queues qos.priority queue }
  | push (p : Priority) (call : Nat) (queue : Queue)
      (stepped : (pipeline.queues p).step
        (.push call pipeline.backoff pipeline.canPull.err) = some queue) :
      Did pipeline (.push p call)
        { pipeline with
          queues := Priority.update pipeline.queues p queue
          canPull :=
            if (pipeline.queues p).signals call then
              pipeline.canPull.set.2
            else
              pipeline.canPull }
  | expire (p : Priority) (call : Nat) (queue : Queue)
      (stepped : (pipeline.queues p).step (.expire call) = some queue) :
      Did pipeline (.expire p call)
        { pipeline with
          queues := Priority.update pipeline.queues p queue }
  | cancel (p : Priority) (call : Nat) (queue : Queue)
      (stepped : (pipeline.queues p).step (.cancel call) = some queue) :
      Did pipeline (.cancel p call)
        { pipeline with
          queues := Priority.update pipeline.queues p queue }
  | pull (mode : Mode) (idle : pipeline.puller.point = .idle)
      (undrained : pipeline.puller.drained = false) :
      Did pipeline (.pull mode)
        { pipeline with
          puller :=
            { pipeline.puller with
              point := .test
              mode := mode
              backoff := false
              bookedLen := fun _ => 0 } }
  | refill (p : Priority) (slot : Slot)
      (idle : pipeline.puller.point = .idle)
      (held : slot ∈ (pipeline.queues p).pool.held) :
      Did pipeline (.refill p slot)
        (pipeline.goTo (.refill .room slot false))
  | puller (aged : Bool) (after : Pipeline)
      (pulls : Pulls pipeline after) :
      Did pipeline (.puller aged) after
  | cancelPull
      (waits : (∃ p, pipeline.puller.point = .yielding p) ∨
        pipeline.puller.point = .parked) :
      Did pipeline .cancelPull (pipeline.goTo .idle)
  | drain (idle : pipeline.puller.point = .idle)
      (undrained : pipeline.puller.drained = false) :
      Did pipeline .drain (pipeline.goTo (.drainLock .high))
  | drop (idle : pipeline.puller.point = .idle) :
      Did pipeline .drop (pipeline.goTo .dropPull)
  | disable :
      Did pipeline .disable
        { pipeline with tasks := pipeline.tasks ++ [.set] }
  | disabled (task : Nat) (point : pipeline.tasks[task]? = some .set) :
      Did pipeline (.task task)
        { pipeline with
          disabled := true
          tasks := pipeline.tasks.set task (.lock .high) }
  | task (task : Nat) (p : Priority) (action : Queue.Action)
      (point : TaskPoint) (queue : Queue)
      (disables : Disables pipeline task p action point)
      (stepped : (pipeline.queues p).step action = some queue) :
      Did pipeline (.task task)
        { pipeline with
          queues := Priority.update pipeline.queues p queue
          tasks := pipeline.tasks.set task point }

theorem taskStep_did {task : Nat}
    (stepped : pipeline.taskStep task = some after) :
    Did pipeline (.task task) after := by
  have moved : ∀ {p : Priority} {action : Queue.Action} {point : TaskPoint},
      pipeline.onTask p action task point = some after →
        Disables pipeline task p action point →
          Did pipeline (.task task) after := by
    intro p action point stepped disables
    rcases onTask_eq stepped with ⟨queue, did, rfl⟩
    exact .task task p action point queue disables did
  unfold taskStep at stepped
  split at stepped
  · rename_i point
    cases stepped
    exact .disabled task point
  · rename_i q point
    exact moved stepped (.lock q point)
  · rename_i q point
    exact moved stepped (.flush q point)
  · rename_i q point
    exact moved stepped (.unlock q point)
  · cases stepped
  · cases stepped

/-- What every step does. -/
theorem step_did (stepped : pipeline.step action = some after) :
    Did pipeline action after := by
  cases action with
  | call msg qos =>
      simp only [step] at stepped
      split at stepped
      · rename_i bounded
        rcases on_eq stepped with ⟨queue, did, rfl⟩
        exact .call msg qos queue bounded did
      · cases stepped
  | push q call =>
      rcases pushStep_eq stepped with ⟨queue, did, rfl⟩
      exact .push q call queue did
  | expire q call =>
      rcases on_eq stepped with ⟨queue, did, rfl⟩
      exact .expire q call queue did
  | cancel q call =>
      rcases on_eq stepped with ⟨queue, did, rfl⟩
      exact .cancel q call queue did
  | pull mode =>
      simp only [step, startPull] at stepped
      split at stepped
      · rename_i free
        cases stepped
        exact .pull mode free.1 free.2
      · cases stepped
  | refill q slot =>
      simp only [step] at stepped
      split at stepped
      · rename_i held
        rcases startAt_eq stepped with ⟨idle, rfl⟩
        exact .refill q slot idle held
      · cases stepped
  | puller aged => exact .puller aged after (pullStep_pulls stepped)
  | cancelPull =>
      simp only [step, cancelPull] at stepped
      split at stepped
      · rename_i q point
        cases stepped
        exact .cancelPull (Or.inl ⟨q, point⟩)
      · rename_i point
        cases stepped
        exact .cancelPull (Or.inr point)
      · cases stepped
  | drain =>
      simp only [step] at stepped
      split at stepped
      · cases stepped
      · rename_i undrained
        rcases startAt_eq stepped with ⟨idle, rfl⟩
        exact .drain idle (Bool.not_eq_true _ ▸ undrained)
  | drop =>
      rcases startAt_eq stepped with ⟨idle, rfl⟩
      exact .drop idle
  | disable =>
      cases stepped
      exact .disable
  | task task => exact taskStep_did stepped

/-- Every step is at most one step of a queue. -/
theorem Did.moves (did : Did pipeline action after) (p : Priority) :
    QueueMoves p (pipeline.queues p) (after.queues p) := by
  cases did with
  | call msg qos queue bounded stepped =>
      exact queueMoves_update stepped ⟨rfl, bounded⟩
  | push q call queue stepped => exact queueMoves_update stepped trivial
  | expire q call queue stepped => exact queueMoves_update stepped trivial
  | cancel q call queue stepped => exact queueMoves_update stepped trivial
  | puller aged after pulls => exact pulls.moves p
  | task task q action point queue disables stepped =>
      refine queueMoves_update stepped ?_
      cases disables <;> trivial
  | _ => exact Or.inl rfl

/-! ## Every queue is sound -/

theorem QueueMoves.sound {queue later : Queue}
    (moves : QueueMoves p queue later) (sound : Sound p queue) :
    Sound p later := by
  rcases moves with same | ⟨act, at_, moved⟩
  · rw [same]
    exact sound
  · exact sound.step at_ moved

/-- Every queue of a pipeline is sound after any run. -/
theorem sound_of_run {capacity batchSize : Nat}
    (small : batchSize ≤ 65535) {actions : List Action}
    (ran : run (new capacity batchSize) actions = some pipeline)
    (p : Priority) : Sound p (pipeline.queues p) := by
  have keeps : ∀ before action after,
      (∀ p, Sound p (before.queues p)) →
        step before action = some after →
          ∀ p, Sound p (after.queues p) := by
    intro before action after sound stepped p
    exact ((step_did stepped).moves p).sound (sound p)
  exact Runs.invariant_of_step keeps
    (fun p => sound_new p capacity small) ran p

end Pipeline
end Tx
end Thubo
