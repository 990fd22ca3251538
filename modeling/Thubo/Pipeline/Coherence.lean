import Thubo.Pipeline.Queue
import Thubo.Pipeline.Tracing

/-!
# The parts of a queue agree

The lock, the pool and the stage of a queue tell the same story: a batch is
booked in the ring when the stage has one booked or the push that holds the
lock writes into one, the push that holds the lock is the one that runs, and
the batches committed are those that left the ring, in this order, followed
by those in it.
-/

namespace Thubo
namespace Tx

/-! ## What a push does with a batch -/

/-- What becomes of a push that gets a batch. -/
inductive Resumed (stage : Stage) (push : Push) (after : Stage) : Prop where
  /-- The batch is committed and the push needs another one. -/
  | goesOn (batch : WriteBatch) (point : PushPoint)
      (committed : after.committed = stage.committed ++ [batch])
      (booked : after.booked = none)
      (running : after.running = some { push with point := point })
      (log : after.log = stage.log)
      (batchSize : after.batchSize = stage.batchSize)
  /-- The batch is committed and the push ends. -/
  | sent (batch : WriteBatch)
      (committed : after.committed = stage.committed ++ [batch])
      (booked : after.booked = none)
      (running : after.running = none)
      (log : after.log = stage.log ++ [⟨push.msg, push.qos, .ok ()⟩])
      (batchSize : after.batchSize = stage.batchSize)
  /-- The batch stays booked and the push ends. -/
  | pending (batch : WriteBatch)
      (committed : after.committed = stage.committed)
      (booked : after.booked = some batch)
      (running : after.running = none)
      (log : after.log = stage.log ++ [⟨push.msg, push.qos, .ok ()⟩])
      (batchSize : after.batchSize = stage.batchSize)
  /-- The batch is too small for a header and stays booked. -/
  | failed (batch : WriteBatch)
      (committed : after.committed = stage.committed)
      (booked : after.booked = some batch)
      (running : after.running = none)
      (log : after.log = stage.log ++
        [⟨push.msg, push.qos, .error .encodingFailed⟩])
      (batchSize : after.batchSize = stage.batchSize)

variable {stage after : Stage} {push : Push}

/-- A change of the counters does not count. -/
theorem Resumed.of_pool {pool : SeqNumPool} {used : Counters}
    (resumed : Resumed { stage with pool := pool, used := used } push
      after) : Resumed stage push after := by
  cases resumed with
  | goesOn batch point committed booked running log size =>
      exact .goesOn batch point committed booked running log size
  | sent batch committed booked running log size =>
      exact .sent batch committed booked running log size
  | pending batch committed booked running log size =>
      exact .pending batch committed booked running log size
  | failed batch committed booked running log size =>
      exact .failed batch committed booked running log size

theorem returnNotify_resumed (batch : WriteBatch) (flush : Bool) :
    Resumed stage push (stage.returnNotify push batch flush) := by
  unfold Stage.returnNotify
  split
  · exact .sent batch rfl rfl rfl rfl rfl
  · exact .pending batch rfl rfl rfl rfl rfl

theorem moveFragment_resumed {batch : WriteBatch} {fragId : SeqNum}
    {reader : BytesReader}
    (stepped : stage.moveFragment push batch fragId reader = .ok after) :
    Resumed stage push after := by
  unfold Stage.moveFragment at stepped
  cases left : reader.remaining with
  | error fault =>
      rw [left] at stepped
      cases stepped
  | ok remaining =>
      simp only [left, ok_bind] at stepped
      split at stepped
      · cases stepped
        exact .goesOn batch _ rfl rfl rfl rfl rfl
      · cases stepped
        exact .sent batch rfl rfl rfl rfl rfl

/-- The first fragment fails only when its header does not fit. -/
theorem startFragments_failed {batch left : WriteBatch}
    {header : MessageHeader} {fragId : SeqNum} {msg : Bytes}
    {error : SendError}
    (ran : batch.startFragments header fragId msg =
      .ok (.failed error left)) : error = .encodingFailed := by
  unfold WriteBatch.startFragments at ran
  dsimp only at ran
  split at ran
  · cases ran
  · cases ran
    rfl
  · split at ran
    · cases ran
    · cases ran
      rfl
    · cases ran

theorem frameStep_resumed {batch : WriteBatch} {flush : Bool}
    (stepped : stage.frameStep push batch flush = .ok after) :
    Resumed stage push after := by
  unfold Stage.frameStep at stepped
  dsimp only at stepped
  cases frame : batch.startFrame
      (.new push.qos (stage.pool.gen push.qos.congestionControl).next)
      push.msg with
  | error fault =>
      rw [frame, error_bind] at stepped
      cases stepped
  | ok result =>
      rcases result with ⟨fits, written⟩
      rw [frame, ok_bind] at stepped
      cases fits with
      | true =>
          cases stepped
          exact (returnNotify_resumed written flush).of_pool
      | false =>
          cases first : WriteBatch.startFragments
              { written with
                drop := (stage.takeFragId stage.pool.fragId.next).dropFlag }
              (.new push.qos
                (stage.pool.gen push.qos.congestionControl).next)
              stage.pool.fragId.next push.msg with
          | error fault =>
              simp only [first, error_bind] at stepped
              cases stepped
          | ok fragmented =>
              simp only [first, ok_bind] at stepped
              cases fragmented with
              | failed error left =>
                  cases startFragments_failed first
                  cases stepped
                  exact .failed left rfl rfl rfl rfl rfl
              | written next reader =>
                  exact (moveFragment_resumed stepped).of_pool.of_pool

theorem fragmentStep_resumed {batch : WriteBatch} {batchSize : Nat}
    (writable : batch.Writable batchSize) {seqNum fragId : SeqNum}
    {reader : BytesReader} (placed : reader.Placed)
    (stepped : stage.fragmentStep push batch seqNum fragId reader =
      .ok after) : Resumed stage push after := by
  unfold Stage.fragmentStep at stepped
  dsimp only at stepped
  rcases WriteBatch.continueFragments_cases writable
      (.new push.qos seqNum) fragId placed with
    ⟨fault, failed⟩ | ⟨kind, taken, next, rest, ran, carried⟩
  · rw [failed] at stepped
    cases stepped
  · simp only [ran, ok_bind] at stepped
    exact (moveFragment_resumed stepped).of_pool

/-- What a push in progress does with a batch. -/
theorem resume_resumed {p : Priority} {parts : List (List Share)}
    {current : List Share} (traced : Traced p stage parts current)
    (isRunning : stage.running = some push) {flush : Bool}
    (stepped : stage.resume push flush = .ok after) :
    Resumed stage push after := by
  rcases traced.running push isRunning with ⟨priority, bounded, goesOn⟩
  unfold Stage.resume at stepped
  cases point : push.point with
  | fragments seqNum fragId reader =>
      rw [point] at goesOn stepped
      rcases goesOn with ⟨free, placed, split⟩
      rcases refilled_fresh free push.qos stage.dropFlag with
        ⟨fresh, qos⟩
      exact fragmentStep_resumed fresh.writable placed stepped
  | fresh =>
      rw [point] at stepped
      exact frameStep_resumed stepped
  | start =>
      rw [point] at stepped
      dsimp only at stepped
      split at stepped
      · exact frameStep_resumed stepped
      · split at stepped
        · cases appended :
              (stage.batch push.qos none).append push.msg with
          | error fault =>
              rw [appended, error_bind] at stepped
              cases stepped
          | ok result =>
              rcases result with ⟨fits, written⟩
              rw [appended, ok_bind] at stepped
              cases fits with
              | true =>
                  cases stepped
                  exact returnNotify_resumed written flush
              | false =>
                  cases stepped
                  exact .goesOn written .fresh rfl rfl rfl rfl rfl
        · cases stepped
          exact .goesOn _ .fresh rfl rfl rfl rfl rfl

theorem Resumed.size_eq (resumed : Resumed stage push after) :
    after.batchSize = stage.batchSize := by
  cases resumed <;> assumption

/-- The same, for a step. -/
theorem step_resumed {p : Priority} {parts : List (List Share)}
    {current : List Share} (traced : Traced p stage parts current)
    {flush : Bool}
    (stepped : stage.step (.resume flush) = .ok (some after)) :
    ∃ push, stage.running = some push ∧ Resumed stage push after := by
  rcases step_resume stepped with ⟨push, isRunning, ran⟩
  exact ⟨push, isRunning, resume_resumed traced isRunning ran⟩

theorem running_of_resume {flush : Bool}
    (stepped : stage.step (.resume flush) = .ok (some after)) :
    stage.running.isSome := by
  rcases step_resume stepped with ⟨push, isRunning, _⟩
  rw [isRunning]
  rfl

/-- The batch size never changes. -/
theorem step_batchSize {p : Priority} {parts : List (List Share)}
    {current : List Share} (traced : Traced p stage parts current)
    {action : Stage.Action}
    (stepped : stage.step action = .ok (some after)) :
    after.batchSize = stage.batchSize := by
  cases action with
  | begin msg qos =>
      rcases step_begin stepped with ⟨_, rfl⟩
      rfl
  | resume flush =>
      rcases step_resumed traced stepped with ⟨push, _, resumed⟩
      exact resumed.size_eq
  | abandon error =>
      rcases step_abandon stepped with ⟨push, _, _, rfl⟩
      rfl
  | flush =>
      rcases step_flush stepped with ⟨batch, _, _, rfl⟩
      rfl

/-! ## The push that holds the lock -/

/-- It has a batch that it has not booked yet. -/
def Inside.carries : Inside → Bool
  | .start | .room | .book => true
  | _ => false

/-- It writes into a booked batch, or is about to commit it. -/
def Inside.writes : Inside → Bool
  | .serialize | .flush | .clear _ | .commit _ | .update => true
  | _ => false

/-- The push that has ended last has written its message. -/
def Stage.Sent (stage : Stage) : Prop :=
  ∃ entry, stage.log.getLast? = some entry ∧ entry.result = .ok ()

/-- A batch that is moved out is not booked. -/
theorem returnNotify_flush (batch : WriteBatch) :
    (stage.returnNotify push batch true).booked = none := by
  unfold Stage.returnNotify
  rw [Bool.or_true, if_pos rfl]
  rfl

theorem moveFragment_booked {batch : WriteBatch} {fragId : SeqNum}
    {reader : BytesReader}
    (stepped : stage.moveFragment push batch fragId reader = .ok after) :
    after.booked = none := by
  unfold Stage.moveFragment at stepped
  cases left : reader.remaining with
  | error fault =>
      rw [left] at stepped
      cases stepped
  | ok remaining =>
      simp only [left, ok_bind] at stepped
      split at stepped
      · cases stepped
        rfl
      · cases stepped
        rfl

/-- A push that ends with an error has not written its message. -/
theorem not_sent_of_log {error : SendError}
    (log : after.log =
      stage.log ++ [⟨push.msg, push.qos, .error error⟩]) :
    ¬ after.Sent := by
  rintro ⟨entry, last, ok⟩
  rw [log, List.getLast?_concat] at last
  cases last
  cases ok

/-- A message that a push has written is moved out when a flush is due. -/
theorem frameStep_flush {batch : WriteBatch}
    (stepped : stage.frameStep push batch false = .ok after)
    (booked : after.booked.isSome) (sent : after.Sent) :
    ∃ later, stage.frameStep push batch true = .ok later ∧
      later.booked = none := by
  unfold Stage.frameStep at stepped ⊢
  dsimp only at stepped ⊢
  cases frame : batch.startFrame
      (.new push.qos (stage.pool.gen push.qos.congestionControl).next)
      push.msg with
  | error fault =>
      rw [frame, error_bind] at stepped
      cases stepped
  | ok result =>
      rcases result with ⟨fits, written⟩
      rw [frame, ok_bind] at stepped
      rw [ok_bind]
      cases fits with
      | true => exact ⟨_, rfl, returnNotify_flush written⟩
      | false =>
          cases first : WriteBatch.startFragments
              { written with
                drop := (stage.takeFragId stage.pool.fragId.next).dropFlag }
              (.new push.qos
                (stage.pool.gen push.qos.congestionControl).next)
              stage.pool.fragId.next push.msg with
          | error fault =>
              simp only [first, error_bind] at stepped
              cases stepped
          | ok fragmented =>
              simp only [first, ok_bind] at stepped
              cases fragmented with
              | failed error left =>
                  cases stepped
                  exact absurd sent (not_sent_of_log rfl)
              | written next reader =>
                  rw [moveFragment_booked stepped] at booked
                  cases booked

/-- A fragment never stays booked unless the push fails. -/
theorem fragmentStep_booked {batch : WriteBatch} {seqNum fragId : SeqNum}
    {reader : BytesReader}
    (stepped : stage.fragmentStep push batch seqNum fragId reader =
      .ok after) (sent : after.Sent) : after.booked = none := by
  unfold Stage.fragmentStep at stepped
  dsimp only at stepped
  cases next : batch.continueFragments (.new push.qos seqNum) fragId
      reader with
  | error fault =>
      rw [next, error_bind] at stepped
      cases stepped
  | ok fragmented =>
      rw [next, ok_bind] at stepped
      cases fragmented with
      | failed error left =>
          cases stepped
          exact absurd sent (not_sent_of_log rfl)
      | written written rest => exact moveFragment_booked stepped

/-- The same, for a step. -/
theorem step_flush_due
    (stepped : stage.step (.resume false) = .ok (some after))
    (booked : after.booked.isSome) (sent : after.Sent) :
    ∃ later, stage.step (.resume true) = .ok (some later) ∧
      later.booked = none := by
  rcases step_resume stepped with ⟨push, isRunning, resumed⟩
  have flushed : ∃ later, stage.resume push true = .ok later ∧
      later.booked = none := by
    unfold Stage.resume at resumed ⊢
    cases point : push.point with
    | fragments seqNum fragId reader =>
        rw [point] at resumed
        exact ⟨after, resumed, fragmentStep_booked resumed sent⟩
    | fresh =>
        rw [point] at resumed
        exact frameStep_flush resumed booked sent
    | start =>
        rw [point] at resumed
        dsimp only at resumed ⊢
        split at resumed
        · rename_i empty
          rw [if_pos empty]
          exact frameStep_flush resumed booked sent
        · rename_i more
          rw [if_neg more]
          split at resumed
          · rename_i control
            rw [if_pos control]
            cases appended :
                (stage.batch push.qos none).append push.msg with
            | error fault =>
                rw [appended, error_bind] at resumed
                cases resumed
            | ok result =>
                rcases result with ⟨fits, written⟩
                rw [appended, ok_bind] at resumed
                rw [ok_bind]
                cases fits with
                | true => exact ⟨_, rfl, returnNotify_flush written⟩
                | false => exact ⟨_, rfl, rfl⟩
          · rename_i control
            rw [if_neg control]
            exact ⟨_, rfl, rfl⟩
  rcases flushed with ⟨later, ran, out⟩
  refine ⟨later, ?_, out⟩
  simp only [Stage.step, isRunning, ran]
  rfl

/-- What the stage is like when the push that holds the lock is there. -/
def Fits (stage : Stage) : Inside → Prop
  | .acquire | .serialize => stage.running.isSome
  | .clear flush | .commit flush =>
      ∃ next, stage.step (.resume flush) = .ok (some next) ∧
        next.booked = none
  | .pop | .start | .room | .book | .wait =>
      stage.running.isSome ∧ stage.booked = none
  | .fail error =>
      stage.running.isSome ∧ stage.booked = none ∧
        (error = .dropped ∨ error = .timeout)
  | .flush | .update =>
      ∃ next, stage.step (.resume false) = .ok (some next) ∧
        next.booked.isSome ∧ next.Sent
  | .test | .signal =>
      stage.booked = none ∧ (stage.running = none → stage.Sent)
  | .unlock result =>
      stage.running = none ∧
        match result with
        | .ok _ => stage.Sent
        | .error error =>
            (∃ entry, stage.log.getLast? = some entry ∧
              entry.result = .error error) ∨
            (error = .closed ∧ stage.Sent)

/-- Where the push that holds the lock is. -/
def inside : Option Holder → Option Inside
  | some (.push _ inside) => some inside
  | _ => none

@[simp]
theorem inside_none : inside none = none :=
  rfl

@[simp]
theorem inside_push (call : Nat) (here : Inside) :
    inside (some (.push call here)) = some here :=
  rfl

@[simp]
theorem inside_flusher (flusher : Flusher) :
    inside (some (.flusher flusher)) = none :=
  rfl

/-- The pool, the stage and the lock agree. -/
structure Agree (pool : Pool) (stage : Stage) (inside : Option Inside) :
    Prop where
  conserved : pool.Conserved
  spare : pool.spare.isSome = inside.any Inside.carries
  booked : pool.booked.isSome =
    (stage.booked.isSome || inside.any Inside.writes)
  fits : ∀ here, inside = some here → Fits stage here
  idle : inside = none → stage.running = none

end Tx
end Thubo
