import Thubo.Pipeline.WriteBatch

/-!
# One priority of the transmit pipeline

A push holds the lock of its priority from its first batch to its last, so
one priority runs one push at a time.  The push suspends only where it needs
a batch; the code between two such points is one step here.  Whether a batch
is available, whether a flush was requested and when the puller flushes the
queue are choices of the surroundings.
-/

namespace Thubo
namespace Tx

/-- The counters of one priority. -/
structure SeqNumPool where
  /-- Sequence numbers of reliable messages. -/
  reliable : SeqNum
  /-- Sequence numbers of best-effort messages. -/
  bestEffort : SeqNum
  /-- Identifiers of fragmented messages. -/
  fragId : SeqNum
deriving DecidableEq, Repr

namespace SeqNumPool

def new : SeqNumPool :=
  ⟨SeqNum.new 0, SeqNum.new 0, SeqNum.new 0⟩

/-- The generator of a congestion control. -/
def gen (pool : SeqNumPool) : CongestionControl → SeqNum
  | .drop => pool.bestEffort
  | .block => pool.reliable

/-- Set the generator of a congestion control. -/
def setGen (pool : SeqNumPool) (seqNum : SeqNum) :
    CongestionControl → SeqNumPool
  | .drop => { pool with bestEffort := seqNum }
  | .block => { pool with reliable := seqNum }

@[simp]
theorem gen_setGen (pool : SeqNumPool) (seqNum : SeqNum)
    (cc other : CongestionControl) :
    (pool.setGen seqNum cc).gen other =
      if other = cc then seqNum else pool.gen other := by
  cases cc <;> cases other <;> rfl

@[simp]
theorem fragId_setGen (pool : SeqNumPool) (seqNum : SeqNum)
    (cc : CongestionControl) :
    (pool.setGen seqNum cc).fragId = pool.fragId := by
  cases cc <;> rfl

end SeqNumPool

/--
How many sequence numbers and fragment identifiers have been taken, counted
without wrapping.
-/
structure Counters where
  sent : CongestionControl → Nat
  fragmented : Nat

namespace Counters

def zero : Counters :=
  ⟨fun _ => 0, 0⟩

/-- One more number of a congestion control. -/
def bump (counters : Counters) (cc : CongestionControl) : Counters :=
  { counters with
    sent := fun other =>
      if other = cc then counters.sent cc + 1 else counters.sent other }

/-- One more fragmented message. -/
def bumpFragmented (counters : Counters) : Counters :=
  { counters with fragmented := counters.fragmented + 1 }

@[simp]
theorem sent_bump (counters : Counters) (cc other : CongestionControl) :
    (counters.bump cc).sent other =
      if other = cc then counters.sent cc + 1 else counters.sent other :=
  rfl

@[simp]
theorem fragmented_bump (counters : Counters) (cc : CongestionControl) :
    (counters.bump cc).fragmented = counters.fragmented :=
  rfl

@[simp]
theorem sent_bumpFragmented (counters : Counters) :
    counters.bumpFragmented.sent = counters.sent :=
  rfl

@[simp]
theorem fragmented_bumpFragmented (counters : Counters) :
    counters.bumpFragmented.fragmented = counters.fragmented + 1 :=
  rfl

/-- The number of the next batch of a congestion control. -/
def number (counters : Counters) (cc : CongestionControl) : SeqNum :=
  SeqNum.new (counters.sent cc + 1)

/-- The number after the number of the next batch. -/
theorem next_number (counters : Counters)
    (cc : CongestionControl) :
    (counters.number cc).next = (counters.bump cc).number cc := by
  rw [number, SeqNum.next_new, number, sent_bump, if_pos rfl]

end Counters

/-- Fewer numbers and identifiers are used than there are. -/
structure Bounded (counters : Counters) : Prop where
  sent : ∀ cc, counters.sent cc < 2 ^ 28
  fragmented : counters.fragmented < 2 ^ 28

/-- Where a push that holds the lock is waiting for a batch. -/
inductive PushPoint where
  /-- For the current serialization batch. -/
  | start
  /-- For a fresh batch, after the pending one has been moved out. -/
  | fresh
  /-- For the batch of the next fragment. -/
  | fragments (seqNum : SeqNum) (fragId : SeqNum) (reader : BytesReader)
deriving DecidableEq, Repr

/-- A push in progress. -/
structure Push where
  msg : Bytes
  qos : QoS
  point : PushPoint
deriving DecidableEq, Repr

/-- A push that has ended, with what it returned. -/
structure Finished where
  msg : Bytes
  qos : QoS
  result : Except SendError Unit

/-- The queue of one priority, with the history of its batches and pushes. -/
structure Stage where
  batchSize : Nat
  pool : SeqNumPool
  /-- What has been taken from the pool. -/
  used : Counters
  /-- The booked batch: written to, and not handed over yet. -/
  booked : Option WriteBatch
  /-- The push that holds the lock. -/
  running : Option Push
  /-- Every batch committed to the ring so far, oldest first. -/
  committed : List WriteBatch
  /-- The pushes that have ended, in the order in which they held the lock. -/
  log : List Finished

namespace Stage

def new (batchSize : Nat) : Stage :=
  ⟨batchSize, .new, .zero, none, none, [], []⟩

/--
The batch to serialize into: the booked one, else a refilled batch, which is
empty and takes the quality of service and the drop flag of the push.
-/
def batch (stage : Stage) (qos : QoS) (drop : Option Nat) : WriteBatch :=
  match stage.booked with
  | some batch => batch
  | none =>
      { WriteBatch.alloc stage.batchSize with qos := qos, drop := drop }

/-- The batch size and the batches committed so far stay. -/
def Extends (before after : Stage) : Prop :=
  after.batchSize = before.batchSize ∧
    before.committed <+: after.committed

/-- A batch takes its sequence number. -/
def takeNumber (stage : Stage) (seqNum : SeqNum)
    (cc : CongestionControl) : Stage :=
  { stage with
    pool := stage.pool.setGen seqNum cc
    used := stage.used.bump cc }

/-- A fragmented message takes its identifier. -/
def takeFragId (stage : Stage) (fragId : SeqNum) : Stage :=
  { stage with
    pool := { stage.pool with fragId := fragId }
    used := stage.used.bumpFragmented }

/-- Commit a batch and book none. -/
def commit (stage : Stage) (batch : WriteBatch) : Stage :=
  { stage with
    booked := none
    committed := stage.committed ++ [batch] }

/-- The running push ends. -/
def finish (stage : Stage) (push : Push) (result : Except SendError Unit) :
    Stage :=
  { stage with
    running := none
    log := stage.log ++ [⟨push.msg, push.qos, result⟩] }

/-- The running push goes on to wait at another point. -/
def suspend (stage : Stage) (push : Push) (point : PushPoint) : Stage :=
  { stage with running := some { push with point := point } }

/-- The batch is moved out if the push is express or a flush is due. -/
def returnNotify (stage : Stage) (push : Push) (batch : WriteBatch)
    (flush : Bool) : Stage :=
  if push.qos.express || flush then
    (stage.commit batch).finish push (.ok ())
  else
    { stage with booked := some batch }.finish push (.ok ())

/-- The drop flag a fragmented message gives its batches. -/
def dropFlag (stage : Stage) : Option Nat :=
  some stage.log.length

/-- Move a fragment out and go on while the message has bytes left. -/
def moveFragment (stage : Stage) (push : Push) (batch : WriteBatch)
    (fragId : SeqNum) (reader : BytesReader) : Except Fault Stage := do
  let stage := stage.commit batch
  let seqNum := (stage.pool.gen push.qos.congestionControl).next
  let remaining ← reader.remaining
  if remaining ≠ 0 then
    return stage.suspend push (.fragments seqNum fragId reader)
  else
    return stage.finish push (.ok ())

/-- A new frame on a fresh batch, or the first fragment of the message. -/
def frameStep (stage : Stage) (push : Push) (batch : WriteBatch)
    (flush : Bool) : Except Fault Stage := do
  let cc := push.qos.congestionControl
  let seqNum := (stage.pool.gen cc).next
  let header := MessageHeader.new push.qos seqNum
  match ← batch.startFrame header push.msg with
  | (true, batch) =>
      return (stage.takeNumber seqNum cc).returnNotify push batch flush
  | (false, batch) =>
      let fragId := stage.pool.fragId.next
      let stage := stage.takeFragId fragId
      let batch := { batch with drop := stage.dropFlag }
      match ← batch.startFragments header fragId push.msg with
      | .failed error batch =>
          return { stage with booked := some batch }.finish push
            (.error error)
      | .written batch reader =>
          (stage.takeNumber seqNum cc).moveFragment push batch fragId reader

/-- The next fragment of a message. -/
def fragmentStep (stage : Stage) (push : Push) (batch : WriteBatch)
    (seqNum fragId : SeqNum) (reader : BytesReader) :
    Except Fault Stage := do
  let cc := push.qos.congestionControl
  let header := MessageHeader.new push.qos seqNum
  match ← batch.continueFragments header fragId reader with
  | .failed error batch =>
      return { stage with booked := some batch }.finish push (.error error)
  | .written batch reader =>
      (stage.takeNumber seqNum cc).moveFragment push batch fragId reader

/-- The running push takes a batch and goes on to its next wait or its end. -/
def resume (stage : Stage) (push : Push) (flush : Bool) :
    Except Fault Stage :=
  match push.point with
  | .start => do
      let batch := stage.batch push.qos none
      if batch.isEmpty then
        stage.frameStep push batch flush
      else if
          batch.qos.congestionControl = push.qos.congestionControl then
        match ← batch.append push.msg with
        | (true, batch) => return stage.returnNotify push batch flush
        | (false, batch) => return (stage.commit batch).suspend push .fresh
      else
        return (stage.commit batch).suspend push .fresh
  | .fresh => stage.frameStep push (stage.batch push.qos none) flush
  | .fragments seqNum fragId reader =>
      stage.fragmentStep push (stage.batch push.qos stage.dropFlag) seqNum
        fragId reader

/-- What can happen to one priority. -/
inductive Action where
  /-- A push takes the lock. -/
  | begin (msg : Bytes) (qos : QoS)
  /-- The running push gets a batch; `flush` tells whether a flush is due. -/
  | resume (flush : Bool)
  /-- The running push gets no batch: it times out or is cancelled. -/
  | abandon (error : SendError)
  /-- The booked batch is flushed by the puller, by disable or by drain. -/
  | flush

/-- One step of a priority; nothing when the action is not possible. -/
def step (stage : Stage) : Action → Except Fault (Option Stage)
  | .begin msg qos =>
      match stage.running with
      | some _ => return none
      | none => return some { stage with running := some ⟨msg, qos, .start⟩ }
  | .resume flush =>
      match stage.running with
      | none => return none
      | some push => do
          let stage ← stage.resume push flush
          return some stage
  | .abandon error =>
      match stage.running, stage.booked with
      | some push, none => return some (stage.finish push (.error error))
      | _, _ => return none
  | .flush =>
      match stage.running, stage.booked with
      | none, some batch => return some (stage.commit batch)
      | _, _ => return none

/-! ## Batches with room for a header -/

/-- A batch has room for a frame with the message or for a first fragment. -/
def takes (stage : Stage) (push : Push) (batch : WriteBatch) : Bool :=
  let header := MessageHeader.new push.qos
    (stage.pool.gen push.qos.congestionControl).next
  (Message.mk header (.frame .new)).wLen + push.msg.wLen ≤
      batch.frame.remaining ||
    WriteBatch.fragmentWLen header stage.pool.fragId.next +
        vleLen push.msg.len ≤
      batch.frame.remaining

/-- The running push has room in its batch for what it is about to write. -/
def roomy (stage : Stage) : Bool :=
  match stage.running with
  | none => true
  | some push =>
      match push.point with
      | .start =>
          !(stage.batch push.qos none).isEmpty ||
            stage.takes push (stage.batch push.qos none)
      | .fresh => stage.takes push (stage.batch push.qos none)
      | .fragments seqNum fragId _ =>
          WriteBatch.fragmentWLen (.new push.qos seqNum) fragId ≤
            (stage.batch push.qos stage.dropFlag).frame.remaining

end Stage

/-! ## What a step does -/

variable {stage after : Stage}

theorem step_begin {msg : Bytes} {qos : QoS}
    (stepped : stage.step (.begin msg qos) = .ok (some after)) :
    stage.running = none ∧
      after = { stage with running := some ⟨msg, qos, .start⟩ } := by
  cases isRunning : stage.running with
  | some push =>
      simp only [Stage.step, isRunning] at stepped
      cases stepped
  | none =>
      simp only [Stage.step, isRunning] at stepped
      cases stepped
      exact ⟨rfl, rfl⟩

theorem step_resume {flush : Bool}
    (stepped : stage.step (.resume flush) = .ok (some after)) :
    ∃ push, stage.running = some push ∧
      stage.resume push flush = .ok after := by
  cases isRunning : stage.running with
  | none =>
      simp only [Stage.step, isRunning] at stepped
      cases stepped
  | some push =>
      simp only [Stage.step, isRunning] at stepped
      cases ran : stage.resume push flush with
      | error fault =>
          rw [ran] at stepped
          cases stepped
      | ok next =>
          rw [ran] at stepped
          cases stepped
          exact ⟨push, rfl, ran⟩

theorem step_abandon {error : SendError}
    (stepped : stage.step (.abandon error) = .ok (some after)) :
    ∃ push, stage.running = some push ∧ stage.booked = none ∧
      after = stage.finish push (.error error) := by
  cases isRunning : stage.running with
  | none =>
      simp only [Stage.step, isRunning] at stepped
      cases stepped
  | some push =>
      cases isBooked : stage.booked with
      | some batch =>
          simp only [Stage.step, isRunning, isBooked] at stepped
          cases stepped
      | none =>
          simp only [Stage.step, isRunning, isBooked] at stepped
          cases stepped
          exact ⟨push, rfl, rfl, rfl⟩

theorem step_flush (stepped : stage.step .flush = .ok (some after)) :
    ∃ batch, stage.running = none ∧ stage.booked = some batch ∧
      after = stage.commit batch := by
  cases isRunning : stage.running with
  | some push =>
      simp only [Stage.step, isRunning] at stepped
      cases stepped
  | none =>
      cases isBooked : stage.booked with
      | none =>
          simp only [Stage.step, isRunning, isBooked] at stepped
          cases stepped
      | some batch =>
          simp only [Stage.step, isRunning, isBooked] at stepped
          cases stepped
          exact ⟨batch, rfl, rfl, rfl⟩

end Tx
end Thubo
