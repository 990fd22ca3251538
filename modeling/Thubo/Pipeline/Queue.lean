import Thubo.Pipeline.Pool
import Thubo.Sync.Event

/-!
# The queue of one priority, one atomic access at a time

Any number of pushes, the puller and the tasks that disable the pipeline
share the queue of a priority.  A push is written as a program with explicit
points; a step runs it to its next point and makes at most one access to what
is shared: the lock, a ring index, a status bit, the backoff, a drop flag or
the flag of an event.  Timers expire at any time.

What a step reads of the rest of the pipeline, the BACKOFF bit and whether
the puller still waits for events, is an argument of the step.
-/

namespace Thubo
namespace Tx

/-! ## Pushes -/

/-- Where the push that holds the lock is. -/
inductive Inside where
  /-- About to look for a batch. -/
  | acquire
  /-- A recycled batch has been found; about to store the read index. -/
  | pop
  /-- About to store the time of the first write. -/
  | start
  /-- About to test the in-out ring for room. -/
  | room
  /-- There is room; about to book the batch. -/
  | book
  /-- About to write into the batch. -/
  | serialize
  /-- The message is written; about to take the flush bit. -/
  | flush
  /-- The batch is moved out; about to clear the backoff. -/
  | clear (flush : Bool)
  /-- The batch is moved out; about to commit it. -/
  | commit (flush : Bool)
  /-- The batch is moved out; about to test the BACKOFF bit. -/
  | test
  /-- The batch is moved out; about to notify the puller. -/
  | signal
  /-- The batch stays booked; about to update the backoff. -/
  | update
  /-- Waiting for a recycled batch. -/
  | wait
  /-- No batch has come; about to set the drop flag. -/
  | fail (error : SendError)
  /-- About to release the lock. -/
  | unlock (result : Except SendError Bool)

/-- Where a push is. -/
inductive Point where
  /-- About to test the congestion bit. -/
  | entry
  | tryLock
  | waitLock
  /-- It holds the lock. -/
  | inside
  /-- After the lock is released; about to test the BACKOFF bit. -/
  | test
  /-- After the lock is released; about to notify the puller. -/
  | signal
  /-- About to set the congestion bit and return the error. -/
  | congest (error : SendError)
  | done (result : Except SendError Unit)
  /-- Its future has been dropped. -/
  | gone

/-- What had happened when a push was called. -/
structure Since where
  /-- `disable` had completed. -/
  disabled : Bool
  /-- The puller had been dropped. -/
  closed : Bool
deriving DecidableEq, Repr

/-- A push that has been called. -/
structure Call where
  msg : Bytes
  qos : QoS
  since : Since
  point : Point
  /-- Its place in the order of those that have held the lock. -/
  turn : Option Nat

/-- Those who lock a priority to flush it. -/
inductive Flusher where
  | puller
  /-- A task that disables the pipeline. -/
  | disable (task : Nat)
deriving DecidableEq, Repr

/-- Who holds the lock. -/
inductive Holder where
  | push (call : Nat) (inside : Inside)
  | flusher (flusher : Flusher)

/-! ## The state -/

/-- What has become of a batch that the puller has inspected. -/
inductive Fate where
  | handedOut
  | discarded
deriving DecidableEq, Repr

/-- A batch that has left the in-out ring. -/
structure Departure where
  slot : Slot
  fate : Fate
deriving DecidableEq, Repr

/-- The queue of a priority, with the history of the batches that left it. -/
structure Queue where
  pool : Pool
  stage : Stage
  lock : Option Holder
  calls : List Call
  /-- The bytes of the backoff. -/
  bytes : Nat
  congested : Bool
  flush : Bool
  canRefill : Event
  /-- The drop flags that are set. -/
  flags : List Nat
  left : List Departure

namespace Queue

def new (capacity batchSize : Nat) : Queue where
  pool := .new capacity
  stage := .new batchSize
  lock := none
  calls := []
  bytes := 0
  congested := false
  flush := false
  canRefill := .new
  flags := []
  left := []

/-- The batches handed out, with their length filled in. -/
def out (queue : Queue) : List WriteBatch :=
  (queue.left.filter fun departure => departure.fate = .handedOut).map
    fun departure => departure.slot.batch.writeLen

/-- A push goes on to a point. -/
def goTo (queue : Queue) (call : Nat) (point : Point) : Queue :=
  { queue with
    calls := queue.calls.modify call fun c => { c with point := point } }

/-- The push that holds the lock goes on to a point. -/
def inner (queue : Queue) (call : Nat) (inside : Inside) : Queue :=
  { queue with lock := some (.push call inside) }

/-- The drop flag of a batch is set. -/
def flagged (queue : Queue) (batch : WriteBatch) : Bool :=
  match batch.drop with
  | some flag => flag ∈ queue.flags
  | none => false

/-! ## A push that holds the lock -/

/-- A push takes the lock. -/
def enter (queue : Queue) (call : Nat) (c : Call) : Option Queue :=
  match queue.stage.step (.begin c.msg c.qos) with
  | .ok (some stage) =>
      some
        { queue with
          stage := stage
          lock := some (.push call .acquire)
          calls := queue.calls.modify call fun c =>
            { c with
              point := .inside
              turn := some queue.stage.log.length } }
  | _ => none

/-- `batch_or_return`: the booked batch, a recycled one or a new one. -/
def acquire (queue : Queue) (call : Nat) : Queue :=
  if queue.pool.booked.isSome then
    queue.inner call .serialize
  else if queue.pool.refill.isEmpty then
    let pool := queue.pool.allocate
    { queue with pool := pool }.inner call
      (if pool.spare.isSome then .start else .wait)
  else
    queue.inner call .pop

/--
What is written decides what follows: the batch is moved out, stays booked
unless a flush is due, or the push fails.  Unwinding is not modelled: when the
stage faults there is no step, and the push keeps the lock.  A stage with room
for the headers does not fault.
-/
def serialize (queue : Queue) (call : Nat) : Option Queue :=
  match queue.stage.step (.resume false) with
  | .ok (some stage) =>
      match stage.booked with
      | none => some (queue.inner call (.clear false))
      | some _ =>
          match stage.log.getLast? with
          | some ⟨_, _, .ok _⟩ => some (queue.inner call .flush)
          | some ⟨_, _, .error error⟩ =>
              some
                ({ queue with stage := stage }.inner call
                  (.unlock (.error error)))
          | none => none
  | _ => none

/-- The batch is written and committed; no step when the stage faults. -/
def commit (queue : Queue) (call : Nat) (flush : Bool) : Option Queue :=
  match queue.stage.step (.resume flush) with
  | .ok (some stage) =>
      match stage.booked, stage.committed.getLast? with
      | none, some batch =>
          match queue.pool.commit batch with
          | some pool =>
              some
                ({ queue with stage := stage, pool := pool }.inner call
                  .test)
          | none => none
      | _, _ => none
  | _ => none

/-- The batch is written and stays booked. -/
def update (queue : Queue) (call : Nat) : Option Queue :=
  match queue.stage.step (.resume false) with
  | .ok (some stage) =>
      match stage.booked with
      | some batch =>
          some
            ({ queue with
              stage := stage
              bytes := queue.bytes ||| batch.len }.inner call
                (.unlock (.ok true)))
      | none => none
  | _ => none

/-- The push ends with an error before it has a batch. -/
def abandon (queue : Queue) (call : Nat) (error : SendError) :
    Option Queue :=
  match queue.stage.step (.abandon error) with
  | .ok (some stage) =>
      some
        ({ queue with stage := stage }.inner call (.unlock (.error error)))
  | _ => none

/-- After a notification: the push needs another batch, or has ended. -/
def goOn (queue : Queue) (call : Nat) : Queue :=
  queue.inner call
    (if queue.stage.running.isSome then .acquire else .unlock (.ok false))

/-- A notification has failed. -/
def close (queue : Queue) (call : Nat) : Option Queue :=
  if queue.stage.running.isSome then
    queue.abandon call .closed
  else
    some (queue.inner call (.unlock (.error .closed)))

/-- Set the drop flag, which only a push with fragments has, and fail. -/
def fail (queue : Queue) (call : Nat) (error : SendError) : Option Queue :=
  let flags :=
    match queue.stage.running with
    | some ⟨_, _, .fragments ..⟩ =>
        queue.flags ++ [queue.stage.log.length]
    | _ => queue.flags
  { queue with flags := flags }.abandon call error

/-- The point at which a push goes on without the lock. -/
def after : Except SendError Bool → Point
  | .ok true => .test
  | .ok false => .done (.ok ())
  | .error .dropped => .congest .dropped
  | .error .timeout => .congest .timeout
  | .error error => .done (.error error)

/-- Release the lock. -/
def unlock (queue : Queue) (call : Nat) (result : Except SendError Bool) :
    Queue :=
  { queue with lock := none }.goTo call (after result)

/-- One step of the push that holds the lock. -/
def insideStep (queue : Queue) (call : Nat) (backoff closed : Bool) :
    Inside → Option Queue
  | .acquire => some (queue.acquire call)
  | .pop =>
      match queue.pool.popRefill with
      | some pool => some ({ queue with pool := pool }.inner call .start)
      | none => none
  | .start => some ({ queue with bytes := 0 }.inner call .room)
  | .room =>
      if queue.pool.refuses then
        { queue with pool := queue.pool.lose }.abandon call .internal
      else
        some (queue.inner call .book)
  | .book =>
      match queue.pool.book with
      | some pool => some ({ queue with pool := pool }.inner call .serialize)
      | none => none
  | .serialize => queue.serialize call
  | .flush =>
      some
        ({ queue with flush := false }.inner call
          (if queue.flush then .clear true else .update))
  | .clear flush =>
      some ({ queue with bytes := 0 }.inner call (.commit flush))
  | .commit flush => queue.commit call flush
  | .test =>
      if backoff then
        some (queue.goOn call)
      else
        some (queue.inner call .signal)
  | .signal =>
      if closed then
        queue.close call
      else
        some (queue.goOn call)
  | .update => queue.update call
  | .wait =>
      let (found, canRefill) := queue.canRefill.check
      some
        ({ queue with canRefill := canRefill }.inner call
          (match found with
            | .ok => .acquire
            | .unset => .wait
            | .err => .fail .dropped))
  | .fail error => queue.fail call error
  | .unlock result => some (queue.unlock call result)

/-! ## A push -/

/-- One step of a push. -/
def pushStep (queue : Queue) (call : Nat) (backoff closed : Bool) :
    Option Queue :=
  match queue.calls[call]? with
  | none => none
  | some c =>
      match c.point with
      | .entry =>
          if c.qos.congestionControl = .drop ∧ queue.congested then
            some (queue.goTo call (.done (.error .dropped)))
          else
            some (queue.goTo call .tryLock)
      | .tryLock =>
          if queue.lock.isNone then
            queue.enter call c
          else
            some (queue.goTo call .waitLock)
      | .waitLock =>
          if queue.lock.isNone then queue.enter call c else none
      | .inside =>
          match queue.lock with
          | some (.push holder inside) =>
              if holder = call then
                queue.insideStep call backoff closed inside
              else
                none
          | _ => none
      | .test =>
          some
            (queue.goTo call (if backoff then .done (.ok ()) else .signal))
      | .signal =>
          some
            (queue.goTo call
              (.done (if closed then .error .closed else .ok ())))
      | .congest error =>
          some
            ({ queue with congested := true }.goTo call
              (.done (.error error)))
      | .done _ | .gone => none

/-- The next step of a push sets the flag of `can_pull`. -/
def signals (queue : Queue) (call : Nat) : Bool :=
  match queue.calls[call]? with
  | some ⟨_, _, _, .signal, _⟩ => true
  | some ⟨_, _, _, .inside, _⟩ =>
      match queue.lock with
      | some (.push holder .signal) => holder = call
      | _ => false
  | _ => false

/-- The timer of a wait expires. -/
def expire (queue : Queue) (call : Nat) : Option Queue :=
  match queue.calls[call]? with
  | some ⟨_, _, _, .waitLock, _⟩ =>
      some (queue.goTo call (.congest .timeout))
  | some ⟨_, _, _, .inside, _⟩ =>
      match queue.lock with
      | some (.push holder .wait) =>
          if holder = call then
            some (queue.inner call (.fail .timeout))
          else
            none
      | _ => none
  | _ => none

/-- The future of a push is dropped while it waits. -/
def cancel (queue : Queue) (call : Nat) : Option Queue :=
  match queue.calls[call]? with
  | some ⟨_, _, _, .waitLock, _⟩ => some (queue.goTo call .gone)
  | some ⟨_, _, _, .inside, _⟩ =>
      match queue.lock with
      | some (.push holder .wait) =>
          if holder = call then
            match queue.stage.step (.abandon .timeout) with
            | .ok (some stage) =>
                some
                  ({ queue with stage := stage, lock := none }.goTo call
                    .gone)
            | _ => none
          else
            none
      | _ => none
  | _ => none

/-! ## The puller and those who disable -/

/-- Take the lock if it is free. -/
def lockBy (queue : Queue) (flusher : Flusher) : Option Queue :=
  match queue.lock with
  | none => some { queue with lock := some (.flusher flusher) }
  | some _ => none

/-- `StageInPrio::flush` by the holder of the lock. -/
def flushBy (queue : Queue) (flusher : Flusher) : Option Queue :=
  match queue.lock with
  | some (.flusher holder) =>
      if holder = flusher then
        if queue.pool.booked.isNone then
          some queue
        else
          match queue.stage.step .flush with
          | .ok (some stage) =>
              match stage.committed.getLast? with
              | some batch =>
                  match queue.pool.commit batch with
                  | some pool =>
                      some { queue with stage := stage, pool := pool }
                  | none => none
              | none => none
          | _ => none
      else
        none
  | _ => none

/-- Release the lock. -/
def releaseBy (queue : Queue) (flusher : Flusher) : Option Queue :=
  match queue.lock with
  | some (.flusher holder) =>
      if holder = flusher then some { queue with lock := none } else none
  | _ => none

/-- Take the oldest batch out of the in-out ring. -/
def take (queue : Queue) : Option Queue :=
  match queue.pool.take with
  | some pool => some { queue with pool := pool }
  | none => none

/-- What becomes of a batch; `congested` tells whether its bit was set. -/
def fate (queue : Queue) (congested : Bool) (batch : WriteBatch) : Fate :=
  if (congested ∧ batch.qos.congestionControl = .drop) ∨
      queue.flagged batch then
    .discarded
  else
    .handedOut

/-- The inspection of a batch ends with its fate. -/
def depart (queue : Queue) (fate : WriteBatch → Fate) : Option Queue :=
  match queue.pool.hand with
  | some slot =>
      match queue.pool.keep with
      | some pool =>
          some
            { queue with
              pool := pool
              left := queue.left ++ [⟨slot, fate slot.batch⟩] }
      | none => none
  | none => none

/-- Discard the inspected batch or hand it out. -/
def decide (queue : Queue) (congested : Bool) : Option Queue :=
  queue.depart (queue.fate congested)

/-- `drain` takes the oldest batch out and hands it out uninspected. -/
def collect (queue : Queue) : Option Queue :=
  match queue.take with
  | some queue => queue.depart fun _ => .handedOut
  | none => none

/-- `StageOut::refill` pushes a batch on the refill ring. -/
def put (queue : Queue) (slot : Slot) : Option Queue :=
  match queue.pool.put slot with
  | some pool => some { queue with pool := pool }
  | none => none

/-- The refill ring is full, and the batch is dropped. -/
def reject (queue : Queue) (slot : Slot) : Option Queue :=
  match queue.pool.reject slot with
  | some pool => some { queue with pool := pool }
  | none => none

/-! ## Steps -/

/-- What can happen to a queue. -/
inductive Action where
  /-- A push is called. -/
  | call (msg : Bytes) (qos : QoS) (since : Since)
  /-- A push goes on. -/
  | push (call : Nat) (backoff closed : Bool)
  /-- The timer of a push expires. -/
  | expire (call : Nat)
  /-- The future of a push is dropped. -/
  | cancel (call : Nat)
  | lock (flusher : Flusher)
  | flush (flusher : Flusher)
  | release (flusher : Flusher)
  /-- The puller sets the flush bit. -/
  | requestFlush
  /-- The puller takes the oldest batch. -/
  | take
  /-- The puller clears the congestion bit. -/
  | uncongest
  /-- The puller discards the batch or hands it out. -/
  | decide (congested : Bool)
  /-- The puller drains a batch. -/
  | collect
  /-- The puller gives a batch back. -/
  | put (slot : Slot)
  /-- The puller loses a batch that it gives back. -/
  | reject (slot : Slot)
  /-- The puller notifies a push that waits for a batch. -/
  | notifyRefill
  /-- The puller drops its end of the refill event. -/
  | failRefill

/-- A push at the priority with a message whose length fits a `u64`. -/
def Action.At (p : Priority) : Action → Prop
  | .call msg qos _ => qos.priority = p ∧ msg.len < 2 ^ 64
  | _ => True

/-- One step; nothing when the action is not possible. -/
def step (queue : Queue) : Action → Option Queue
  | .call msg qos since =>
      some
        { queue with
          calls := queue.calls ++ [⟨msg, qos, since, .entry, none⟩] }
  | .push call backoff closed => queue.pushStep call backoff closed
  | .expire call => queue.expire call
  | .cancel call => queue.cancel call
  | .lock flusher => queue.lockBy flusher
  | .flush flusher => queue.flushBy flusher
  | .release flusher => queue.releaseBy flusher
  | .requestFlush => some { queue with flush := true }
  | .take => queue.take
  | .uncongest => some { queue with congested := false }
  | .decide congested => queue.decide congested
  | .collect => queue.collect
  | .put slot => queue.put slot
  | .reject slot => queue.reject slot
  | .notifyRefill =>
      some { queue with canRefill := queue.canRefill.set.2 }
  | .failRefill => some { queue with canRefill := queue.canRefill.fail }

end Queue
end Tx
end Thubo
