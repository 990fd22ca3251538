import Thubo.Lib.Runs
import Thubo.Pipeline.Sound

/-!
# The transmit pipeline

The queues of all priorities, the puller and the tasks that disable the
pipeline run together.  The puller and these tasks are programs with explicit
points as the pushes are: a step makes at most one access to what is shared.
The timer of the write task may drop a `pull` that waits, `drain` runs once,
and `PipelineTxOut` is dropped when no call of it is in progress.
-/

namespace Thubo
namespace Tx

/-! ## The puller -/

/-- Which function of `PipelineTxOut` takes batches out of the rings. -/
inductive Mode where
  | pull
  | tryPull
deriving DecidableEq, Repr

/-- What the puller has seen of one priority in a pass over all of them. -/
structure Inspection where
  priority : Priority
  ring : List Slot
  booked : Bool
deriving DecidableEq, Repr

/-- A batch that `pull` or `try_pull` has returned. -/
structure Handing where
  priority : Priority
  slot : Slot
  /-- The inspections of the pass that found it. -/
  pass : List Inspection
deriving DecidableEq, Repr

/-- Where `StageOut::refill` is. -/
inductive RefillPoint where
  /-- About to test the refill ring for room. -/
  | room
  /-- About to push the batch. -/
  | put
  /-- About to notify the pushes that wait for a batch. -/
  | notify
deriving DecidableEq, Repr

/-- Where the puller is. -/
inductive PullPoint where
  /-- No function of `PipelineTxOut` is running. -/
  | idle
  /-- About to test the DISABLED bit. -/
  | test
  /-- About to inspect the ring of a priority. -/
  | look (p : Priority)
  /-- The ring has a batch; about to store the read index. -/
  | take (p : Priority)
  /-- A batch is taken; about to clear the congestion bit. -/
  | clear (p : Priority)
  /-- About to read the drop flag of the batch. -/
  | decide (p : Priority) (congested : Bool)
  /-- Giving a batch back; `discarded` by `pull` or `try_pull` or written. -/
  | refill (point : RefillPoint) (slot : Slot) (discarded : Bool)
  /-- The priority is booked; about to set the BACKOFF bit. -/
  | setBackoff (p : Priority)
  | yielding (p : Priority)
  /-- About to load the backoff. -/
  | load (p : Priority)
  /-- About to compare the age of the booked batch. -/
  | age (p : Priority)
  /-- The booked batch is old; about to set the flush bit. -/
  | setFlush (p : Priority)
  | tryLock (p : Priority)
  | flush (p : Priority)
  | unlock (p : Priority)
  /-- Nothing is committed or booked; about to clear the BACKOFF bit. -/
  | unsetBackoff
  /-- `Waiter::wait`: about to check the event. -/
  | check
  /-- `Waiter::wait`: about to check the event again, as a listener. -/
  | listening
  /-- Suspended in `Waiter::wait`. -/
  | parked
  | drainLock (p : Priority)
  | drainFlush (p : Priority)
  | drainLook (p : Priority)
  | drainTake (p : Priority)
  | drainUnlock (p : Priority)
  /-- Being dropped; about to drop its end of the pull event. -/
  | dropPull
  /-- Being dropped; about to drop its end of a refill event. -/
  | dropRefill (p : Priority)
  | gone
deriving DecidableEq, Repr

/-- The puller, with the local variables of the call that is running. -/
structure Puller where
  point : PullPoint
  mode : Mode
  /-- Whether this call has set the BACKOFF bit. -/
  backoff : Bool
  bookedLen : Priority → Nat
  pass : List Inspection
  /-- `drain` has run. -/
  drained : Bool

/-- Where a task that disables the pipeline is. -/
inductive TaskPoint where
  /-- About to set the DISABLED bit. -/
  | set
  | lock (p : Priority)
  | flush (p : Priority)
  | unlock (p : Priority)
  | done
deriving DecidableEq, Repr

/-! ## The state -/

/-- The transmit pipeline and everyone who uses it. -/
structure Pipeline where
  queues : Priority → Queue
  /-- The BACKOFF bit. -/
  backoff : Bool
  /-- The DISABLED bit. -/
  disabled : Bool
  canPull : Event
  puller : Puller
  tasks : List TaskPoint
  handed : List Handing

namespace Pipeline

def new (capacity batchSize : Nat) : Pipeline where
  queues _ := .new capacity batchSize
  backoff := false
  disabled := false
  canPull := .new
  puller := ⟨.idle, .pull, false, fun _ => 0, [], false⟩
  tasks := []
  handed := []

/-- One of the queues takes a step. -/
def on (pipeline : Pipeline) (p : Priority) (action : Queue.Action) :
    Option Pipeline :=
  match (pipeline.queues p).step action with
  | some queue =>
      some { pipeline with queues := Priority.update pipeline.queues p queue }
  | none => none

/-- The puller goes on to a point. -/
def goTo (pipeline : Pipeline) (point : PullPoint) : Pipeline :=
  { pipeline with puller := { pipeline.puller with point := point } }

/-- A queue takes a step and the puller goes on to a point. -/
def onTo (pipeline : Pipeline) (p : Priority) (action : Queue.Action)
    (point : PullPoint) : Option Pipeline :=
  match pipeline.on p action with
  | some pipeline => some (pipeline.goTo point)
  | none => none

/-- A push that is called finds this. -/
def since (pipeline : Pipeline) : Since :=
  ⟨pipeline.tasks.any (· == .done), pipeline.puller.point == .gone⟩

/-! ## Steps of a push -/

/-- A push goes on, and may set the notification of the puller. -/
def pushStep (pipeline : Pipeline) (p : Priority) (call : Nat) :
    Option Pipeline :=
  match pipeline.on p
      (.push call pipeline.backoff pipeline.canPull.err) with
  | some after =>
      if (pipeline.queues p).signals call then
        some { after with canPull := after.canPull.set.2 }
      else
        some after
  | none => none

/-! ## Steps of the puller -/

/-- `pull` or `try_pull` is called. -/
def startPull (pipeline : Pipeline) (mode : Mode) : Option Pipeline :=
  if pipeline.puller.point = .idle ∧ pipeline.puller.drained = false then
    some
      { pipeline with
        puller :=
          { pipeline.puller with
            point := .test
            mode := mode
            backoff := false
            bookedLen := fun _ => 0 } }
  else
    none

/-- The puller has no batch to take in this pass. -/
def nothing (pipeline : Pipeline) : Pipeline :=
  pipeline.goTo
    (match pipeline.puller.mode with
      | .pull => .unsetBackoff
      | .tryPull => .idle)

/-- The puller has found a booked batch and none committed. -/
def foundBooked (pipeline : Pipeline) (p : Priority) : Pipeline :=
  pipeline.goTo
    (match pipeline.puller.mode with
      | .tryPull => .idle
      | .pull =>
          if pipeline.puller.backoff then .yielding p else .setBackoff p)

/-- The puller inspects the ring of a priority. -/
def look (pipeline : Pipeline) (p : Priority) : Pipeline :=
  let pool := (pipeline.queues p).pool
  let seen : Pipeline :=
    { pipeline with
      puller :=
        { pipeline.puller with
          pass := pipeline.puller.pass ++
            [⟨p, pool.ring, pool.booked.isSome⟩] } }
  if pool.ring ≠ [] then
    seen.goTo (.take p)
  else if pool.booked.isSome then
    seen.foundBooked p
  else
    match p.lower with
    | some next => seen.goTo (.look next)
    | none => seen.nothing

/-- The puller clears the congestion bit of the priority of the batch. -/
def uncongest (pipeline : Pipeline) (p : Priority) : Option Pipeline :=
  match (pipeline.queues p).pool.hand with
  | some slot =>
      let q := slot.batch.qos.priority
      pipeline.onTo q .uncongest
        (.decide p (pipeline.queues q).congested)
  | none => none

/-- The puller discards the batch or returns it. -/
def decide (pipeline : Pipeline) (p : Priority) (congested : Bool) :
    Option Pipeline :=
  match (pipeline.queues p).pool.hand with
  | some slot =>
      match (pipeline.queues p).fate congested slot.batch with
      | .discarded =>
          pipeline.onTo p (.decide congested) (.refill .room slot true)
      | .handedOut =>
          match pipeline.onTo p (.decide congested) .idle with
          | some after =>
              some
                { after with
                  handed := after.handed ++
                    [⟨p, slot, pipeline.puller.pass⟩] }
          | none => none
  | none => none

/-- One step of `StageOut::refill`. -/
def refillStep (pipeline : Pipeline) (slot : Slot) (discarded : Bool) :
    RefillPoint → Option Pipeline
  | .room =>
      let p := slot.batch.qos.priority
      if (pipeline.queues p).pool.refillFull then
        pipeline.onTo p (.reject slot) (.refill .notify slot discarded)
      else
        some (pipeline.goTo (.refill .put slot discarded))
  | .put =>
      pipeline.onTo slot.batch.qos.priority (.put slot)
        (.refill .notify slot discarded)
  | .notify =>
      pipeline.onTo slot.batch.qos.priority .notifyRefill
        (if discarded then .test else .idle)

/-- The puller compares the backoff with what it has seen before. -/
def load (pipeline : Pipeline) (p : Priority) : Pipeline :=
  let len := (pipeline.queues p).bytes
  let old := pipeline.puller.bookedLen p
  { pipeline with
    puller :=
      { pipeline.puller with
        bookedLen := Priority.update pipeline.puller.bookedLen p len
        point :=
          match compare len old with
          | .lt => .test
          | .eq => .tryLock p
          | .gt => .age p } }

/-- The puller resets its backoff and clears the bit. -/
def unsetBackoff (pipeline : Pipeline) : Pipeline :=
  { pipeline with
    backoff := false
    puller :=
      { pipeline.puller with
        point := .check
        backoff := false
        bookedLen := fun _ => 0 } }

/-- A check of the event in `Waiter::wait`. -/
def wait (pipeline : Pipeline) (unset : PullPoint) : Pipeline :=
  { pipeline with canPull := pipeline.canPull.check.2 }.goTo
    (match pipeline.canPull.check.1 with
      | .ok => .test
      | .unset => unset
      | .err => .idle)

/-- The next priority, or what comes after all of them. -/
def next (p : Priority) (point : Priority → PullPoint)
    (last : PullPoint) : PullPoint :=
  match p.lower with
  | some lower => point lower
  | none => last

/-- One step of the puller; `aged` tells what a comparison of times gives. -/
def pullStep (pipeline : Pipeline) (aged : Bool) : Option Pipeline :=
  match pipeline.puller.point with
  | .idle | .gone => none
  | .test =>
      if pipeline.disabled then
        some (pipeline.goTo .idle)
      else
        some
          { pipeline with
            puller :=
              { pipeline.puller with point := .look .high, pass := [] } }
  | .look p => some (pipeline.look p)
  | .take p => pipeline.onTo p .take (.clear p)
  | .clear p => pipeline.uncongest p
  | .decide p congested => pipeline.decide p congested
  | .refill point slot discarded =>
      pipeline.refillStep slot discarded point
  | .setBackoff p =>
      some
        { pipeline with
          backoff := true
          puller :=
            { pipeline.puller with backoff := true, point := .yielding p } }
  | .yielding p => some (pipeline.goTo (.load p))
  | .load p => some (pipeline.load p)
  | .age p => some (pipeline.goTo (if aged then .setFlush p else .test))
  | .setFlush p => pipeline.onTo p .requestFlush (.tryLock p)
  | .tryLock p =>
      if (pipeline.queues p).lock.isNone then
        pipeline.onTo p (.lock .puller) (.flush p)
      else
        some (pipeline.goTo .test)
  | .flush p => pipeline.onTo p (.flush .puller) (.unlock p)
  | .unlock p => pipeline.onTo p (.release .puller) .test
  | .unsetBackoff => some pipeline.unsetBackoff
  | .check => some (pipeline.wait .listening)
  | .listening => some (pipeline.wait .parked)
  | .parked => some (pipeline.goTo .check)
  | .drainLock p =>
      pipeline.onTo p (.lock .puller) (next p .drainLock (.drainFlush .high))
  | .drainFlush p =>
      pipeline.onTo p (.flush .puller)
        (next p .drainFlush (.drainLook .high))
  | .drainLook p =>
      if (pipeline.queues p).pool.ring ≠ [] then
        some (pipeline.goTo (.drainTake p))
      else
        some (pipeline.goTo (next p .drainLook (.drainUnlock .high)))
  | .drainTake p => pipeline.onTo p .collect (.drainLook .high)
  | .drainUnlock p =>
      match pipeline.onTo p (.release .puller) (next p .drainUnlock .idle)
        with
      | some after =>
          some
            { after with
              puller :=
                { after.puller with
                  drained := after.puller.point == .idle } }
      | none => none
  | .dropPull =>
      some
        ({ pipeline with canPull := pipeline.canPull.fail }.goTo
          (.dropRefill .high))
  | .dropRefill p =>
      pipeline.onTo p .failRefill (next p .dropRefill .gone)

/-- The future of `pull` is dropped where it is suspended. -/
def cancelPull (pipeline : Pipeline) : Option Pipeline :=
  match pipeline.puller.point with
  | .yielding _ | .parked => some (pipeline.goTo .idle)
  | _ => none

/-- A function of `PipelineTxOut` other than `pull` is called. -/
def startAt (pipeline : Pipeline) (point : PullPoint) : Option Pipeline :=
  if pipeline.puller.point = .idle then some (pipeline.goTo point) else none

/-! ## Steps of the tasks that disable the pipeline -/

/-- A task goes on to a point. -/
def taskTo (pipeline : Pipeline) (task : Nat) (point : TaskPoint) :
    Pipeline :=
  { pipeline with tasks := pipeline.tasks.set task point }

/-- A queue takes a step and a task goes on to a point. -/
def onTask (pipeline : Pipeline) (p : Priority) (action : Queue.Action)
    (task : Nat) (point : TaskPoint) : Option Pipeline :=
  match pipeline.on p action with
  | some pipeline => some (pipeline.taskTo task point)
  | none => none

/-- The next priority, or what comes after all of them. -/
def nextTask (p : Priority) (point : Priority → TaskPoint)
    (last : TaskPoint) : TaskPoint :=
  match p.lower with
  | some lower => point lower
  | none => last

/-- One step of `disable`. -/
def taskStep (pipeline : Pipeline) (task : Nat) : Option Pipeline :=
  match pipeline.tasks[task]? with
  | some .set =>
      some ({ pipeline with disabled := true }.taskTo task (.lock .high))
  | some (.lock p) =>
      pipeline.onTask p (.lock (.disable task)) task
        (nextTask p .lock (.flush .high))
  | some (.flush p) =>
      pipeline.onTask p (.flush (.disable task)) task
        (nextTask p .flush (.unlock .high))
  | some (.unlock p) =>
      pipeline.onTask p (.release (.disable task)) task
        (nextTask p .unlock .done)
  | some .done | none => none

/-! ## All steps -/

/-- What can happen to the pipeline. -/
inductive Action where
  /-- A push is called. -/
  | call (msg : Bytes) (qos : QoS)
  /-- A push of a priority goes on. -/
  | push (p : Priority) (call : Nat)
  /-- The timer of a push expires. -/
  | expire (p : Priority) (call : Nat)
  /-- The future of a push is dropped. -/
  | cancel (p : Priority) (call : Nat)
  /-- `pull` or `try_pull` is called. -/
  | pull (mode : Mode)
  /-- `refill` is called with a batch that the puller holds. -/
  | refill (p : Priority) (slot : Slot)
  /-- The puller goes on. -/
  | puller (aged : Bool)
  /-- The future of `pull` is dropped. -/
  | cancelPull
  /-- `drain` is called. -/
  | drain
  /-- `PipelineTxOut` is dropped. -/
  | drop
  /-- `disable` is called. -/
  | disable
  /-- A task that disables the pipeline goes on. -/
  | task (task : Nat)

/-- One step; nothing when the action is not possible. -/
def step (pipeline : Pipeline) : Action → Option Pipeline
  | .call msg qos =>
      -- the length of a message is a `usize`
      if msg.len < 2 ^ 64 then
        pipeline.on qos.priority (.call msg qos pipeline.since)
      else
        none
  | .push p call => pipeline.pushStep p call
  | .expire p call => pipeline.on p (.expire call)
  | .cancel p call => pipeline.on p (.cancel call)
  | .pull mode => pipeline.startPull mode
  | .refill p slot =>
      if slot ∈ (pipeline.queues p).pool.held then
        pipeline.startAt (.refill .room slot false)
      else
        none
  | .puller aged => pipeline.pullStep aged
  | .cancelPull => pipeline.cancelPull
  | .drain =>
      if pipeline.puller.drained then
        none
      else
        pipeline.startAt (.drainLock .high)
  | .drop => pipeline.startAt .dropPull
  | .disable => some { pipeline with tasks := pipeline.tasks ++ [.set] }
  | .task task => pipeline.taskStep task

/-- The state after a list of actions. -/
abbrev run : Pipeline → List Action → Option Pipeline :=
  Runs.run step

theorem run_cons {pipeline after : Pipeline} {action : Action}
    (first : pipeline.step action = some after) (rest : List Action) :
    run pipeline (action :: rest) = run after rest :=
  Runs.run_cons first rest

/-- A message of three bytes. -/
def shortMessage : Bytes :=
  Bytes.single (Chunk.ofBuf [1, 2, 3])

/-! ## What a step does to a queue -/

section

variable {pipeline after : Pipeline} {p : Priority}

theorem on_eq {action : Queue.Action}
    (stepped : pipeline.on p action = some after) :
    ∃ queue, (pipeline.queues p).step action = some queue ∧
      after = { pipeline with
        queues := Priority.update pipeline.queues p queue } := by
  unfold on at stepped
  split at stepped
  · rename_i queue moved
    cases stepped
    exact ⟨queue, moved, rfl⟩
  · cases stepped

theorem onTo_eq {action : Queue.Action} {point : PullPoint}
    (stepped : pipeline.onTo p action point = some after) :
    ∃ queue, (pipeline.queues p).step action = some queue ∧
      after = { pipeline with
        queues := Priority.update pipeline.queues p queue
        puller := { pipeline.puller with point := point } } := by
  unfold onTo at stepped
  split at stepped
  · rename_i middle moved
    rcases on_eq moved with ⟨queue, did, rfl⟩
    cases stepped
    exact ⟨queue, did, rfl⟩
  · cases stepped

theorem onTask_eq {action : Queue.Action} {task : Nat} {point : TaskPoint}
    (stepped : pipeline.onTask p action task point = some after) :
    ∃ queue, (pipeline.queues p).step action = some queue ∧
      after = { pipeline with
        queues := Priority.update pipeline.queues p queue
        tasks := pipeline.tasks.set task point } := by
  unfold onTask at stepped
  split at stepped
  · rename_i middle moved
    rcases on_eq moved with ⟨queue, did, rfl⟩
    cases stepped
    exact ⟨queue, did, rfl⟩
  · cases stepped

end

end Pipeline
end Tx
end Thubo
