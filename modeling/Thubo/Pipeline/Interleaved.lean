import Thubo.Lib.Runs
import Thubo.Pipeline.Rx
import Thubo.RingBuf.Spsc
import Thubo.Sync.Event

/-!
# The receive pipeline, one atomic access at a time

The reader task pushes batches while the application pulls messages.  Both
are written as programs with explicit points; a step runs one of them to its
next point and makes at most one access to what the two share: a ring index,
the status bits, or the flag of an event.  Timers expire at any time.
-/

namespace Thubo
namespace Rx
namespace Interleaved

/-- A batch of a ring, by its priority and its number in that ring. -/
structure BatchId where
  ring : Priority
  serial : Nat
deriving DecidableEq, Repr

/-- Where the reader task is in a push. -/
inductive ReaderPoint where
  | idle
  /-- About to test the ring for room. -/
  | offer (batch : ReadBatch)
  /-- There is room; about to write the batch and store the index. -/
  | insert (batch : ReadBatch)
  /-- The ring is full; about to test the congestion bit. -/
  | full (batch : ReadBatch)
  /-- The ring is full; about to compute the time left. -/
  | timed (batch : ReadBatch)
  /-- Waiting for room. -/
  | waiting (batch : ReadBatch)
  /-- The batch is in its ring; about to notify the application. -/
  | notify
  /-- The reader task has dropped its end. -/
  | gone
deriving DecidableEq, Repr

/-- A batch that a round of `try_pull` is about to remove. -/
structure Round where
  /-- The batch that `peek_mut` returned. -/
  peeked : BatchId
  /-- The priority that was read from it. -/
  priority : Priority
  /-- Its congestion bit was set, and it may be dropped. -/
  discarded : Bool
deriving DecidableEq, Repr

/-- Where the application is in a pull. -/
inductive AppPoint where
  | idle
  /-- `peek_mut` is about to look at a ring. -/
  | peek (p : Priority)
  /-- `peek_mut` has returned a batch; about to clear its congestion bit. -/
  | peeked (id : BatchId)
  /-- The ring's `pull` is about to look at the ring of `q`. -/
  | scan (round : Round) (q : Priority)
  /-- The ring's `pull` has found a batch in the ring of `q`. -/
  | take (round : Round) (q : Priority)
  /-- A batch has been removed; about to notify the reader task. -/
  | notify (round : Round)
  /-- All rings were empty; `try_pull` returns nothing. -/
  | empty
  /-- Waiting: about to check the event. -/
  | check
  /-- Waiting: a listener is registered; about to check once more. -/
  | listening
  /-- Waiting for the listener. -/
  | parked
  /-- `pull` has returned `Closed`. -/
  | closed
deriving DecidableEq, Repr

/-- A batch that `try_pull` has removed from a ring. -/
structure Removal where
  round : Round
  /-- The batch that the ring's `pull` returned. -/
  removed : BatchId
  batch : ReadBatch
deriving DecidableEq, Repr

/-- The pipeline, the points of both parties, and what has happened. -/
structure State where
  ring : RingBuf.Spsc ReadBatch
  defrag : Defragmentation
  congested : Priority → Bool
  canRecv : Event
  canSend : Priority → Event
  reader : ReaderPoint
  app : AppPoint
  /-- The batches written to each ring so far. -/
  inserted : Priority → List ReadBatch
  /-- The number of batches removed from each ring so far. -/
  taken : Priority → Nat
  removals : List Removal
  /-- The messages returned so far. -/
  got : List (Bytes × QoS)

def init (exponent : Nat) (small : exponent ≤ 7) : State where
  ring := .new exponent small
  defrag := .new
  congested _ := false
  canRecv := .new
  canSend _ := .new
  reader := .idle
  app := .idle
  inserted _ := []
  taken _ := 0
  removals := []
  got := []

inductive Action where
  /-- The reader task pushes the window of a buffer it has read. -/
  | push (chunk : Chunk) (fragMaxSize : Nat)
  /-- The reader task goes on. -/
  | reader
  /-- The deadline of the push has passed. -/
  | deadline
  /-- The wait for room ends with a notification. -/
  | room
  /-- The wait for room ends with its timer. -/
  | expired
  /-- The reader task drops its end. -/
  | drop
  /-- The application calls `pull` or `try_pull`. -/
  | call
  /-- The application goes on. -/
  | app
  /-- The call returns without a message, or is cancelled while it waits. -/
  | leave
deriving DecidableEq, Repr

/-! ## The reader task -/

/-- The point after the decoding half of push. -/
def start : Decoded → ReaderPoint
  | .reject _ => .idle
  | .kept => .idle
  | .deliver batch => .offer batch

/-- The ring has given the batch back. -/
def giveBack (batch : ReadBatch) : ReaderPoint :=
  match batch.qos.congestionControl with
  | .block => .timed batch
  | .drop => .full batch

/-- The timer of the wait for room has expired. -/
def afterTimeout (batch : ReadBatch) : ReaderPoint :=
  match batch.qos.congestionControl with
  | .block => .offer batch
  | .drop => .idle

/-- Test the ring for room. -/
def offer (state : State) (batch : ReadBatch) : State :=
  let (full, ring) := state.ring.isFull batch.qos.priority
  { state with
    ring := ring
    reader := if full then giveBack batch else .insert batch }

/-- Write the batch and store the write index. -/
def insert (state : State) (batch : ReadBatch) : State :=
  let p := batch.qos.priority
  { state with
    ring := state.ring.insert p batch
    reader := .notify
    inserted := Priority.update state.inserted p
      (state.inserted p ++ [batch]) }

/-- One step of the reader task. -/
def readerStep (state : State) : Option State :=
  match state.reader with
  | .offer batch => some (offer state batch)
  | .insert batch => some (insert state batch)
  | .full batch =>
      some
        { state with
          reader :=
            if state.congested batch.qos.priority then
              .idle
            else
              .timed batch }
  | .timed batch => some { state with reader := .waiting batch }
  | .notify =>
      some { state with canRecv := state.canRecv.set.2, reader := .idle }
  | _ => none

/-! ## The application -/

/-- The next ring of a scan, or what follows the last one. -/
def nextOr (p : Priority) (next : Priority → AppPoint)
    (last : AppPoint) : AppPoint :=
  match p.lower with
  | some q => next q
  | none => last

/-- `peek_mut` looks at the ring of a priority. -/
def peek (state : State) (p : Priority) : State :=
  let (empty, ring) := state.ring.isEmpty p
  { state with
    ring := ring
    app :=
      if empty then
        nextOr p .peek .empty
      else
        .peeked ⟨p, state.taken p⟩ }

/-- The peeked batch is inspected. -/
def inspect (state : State) (id : BatchId) (batch : ReadBatch) :
    Option State :=
  let priority := batch.qos.priority
  let isCongested := state.congested priority
  let state :=
    { state with
      congested := Priority.update state.congested priority false }
  if isCongested ∧ batch.qos.congestionControl = .drop then
    some { state with app := .scan ⟨id, priority, true⟩ .high }
  else
    match batch.next with
    | .error _ => none
    | .ok none =>
        some { state with app := .scan ⟨id, priority, false⟩ .high }
    | .ok (some (t, qos, batch)) =>
        some
          { state with
            ring := state.ring.setFront id.ring batch
            got := state.got ++ [(t, qos)]
            app := .idle }

/-- The ring's `pull` looks at the ring of a priority. -/
def scan (state : State) (round : Round) (q : Priority) : State :=
  let (empty, ring) := state.ring.isEmpty q
  { state with
    ring := ring
    app :=
      if empty then
        nextOr q (.scan round) (.notify round)
      else
        .take round q }

/-- The ring's `pull` takes a batch out. -/
def take (state : State) (round : Round) (q : Priority)
    (batch : ReadBatch) : State :=
  { state with
    ring := state.ring.remove q
    app := .notify round
    taken := Priority.update state.taken q (state.taken q + 1)
    removals := state.removals ++
      [⟨round, ⟨q, state.taken q⟩, batch⟩] }

/-- The event is checked; `unset` is the point after no notification. -/
def checkEvent (state : State) (unset : AppPoint) : State :=
  let (found, canRecv) := state.canRecv.check
  { state with
    canRecv := canRecv
    app :=
      match found with
      | .ok => .peek .high
      | .unset => unset
      | .err => .closed }

/-- One step of the application. -/
def appStep (state : State) : Option State :=
  match state.app with
  | .peek p => some (peek state p)
  | .peeked id =>
      match state.ring.front id.ring with
      | none => none
      | some batch => inspect state id batch
  | .scan round q => some (scan state round q)
  | .take round q =>
      match state.ring.front q with
      | none => none
      | some batch => some (take state round q batch)
  | .notify round =>
      let p := round.priority
      some
        { state with
          canSend := Priority.update state.canSend p
            (state.canSend p).set.2
          app := .peek .high }
  | .empty => some { state with app := .check }
  | .check => some (checkEvent state .listening)
  | .listening => some (checkEvent state .parked)
  | .parked => some { state with app := .check }
  | .idle | .closed => none

/-! ## Steps -/

/-- One step; nothing when the action is not possible. -/
def step (state : State) : Action → Option State
  | .push chunk fragMaxSize =>
      match state.reader with
      | .idle =>
          -- the reader task takes an empty batch as a keep-alive
          if chunk.len = 0 then
            none
          else
            match decodeBatch state.defrag (Bytes.single chunk)
                fragMaxSize with
            | .error _ => none
            | .ok (decoded, defrag) =>
                some
                  { state with
                    defrag := defrag
                    reader := start decoded }
      | _ => none
  | .reader => readerStep state
  | .deadline =>
      match state.reader with
      | .timed _ => some { state with reader := .idle }
      | _ => none
  | .room =>
      match state.reader with
      | .waiting batch =>
          let p := batch.qos.priority
          if (state.canSend p).check.1 = .ok then
            some
              { state with
                canSend := Priority.update state.canSend p
                  (state.canSend p).check.2
                reader := .offer batch }
          else
            none
      | _ => none
  | .expired =>
      match state.reader with
      | .waiting batch =>
          some
            { state with
              congested := Priority.update state.congested
                batch.qos.priority true
              reader := afterTimeout batch }
      | _ => none
  | .drop =>
      match state.reader with
      | .idle | .waiting _ =>
          some
            { state with
              canRecv := state.canRecv.fail
              canSend := fun p => (state.canSend p).fail
              reader := .gone }
      | _ => none
  | .call =>
      match state.app with
      | .idle | .closed => some { state with app := .peek .high }
      | _ => none
  | .app => appStep state
  | .leave =>
      match state.app with
      | .empty | .parked => some { state with app := .idle }
      | _ => none

end Interleaved
end Rx
end Thubo
