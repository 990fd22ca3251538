import Thubo.Pipeline.Moves

/-!
# A push that holds the lock can go on

Only a batch that is too small for a header stops a push that holds the lock
of its priority.  Otherwise there is a next step at every point, so a push
never waits for anything but the lock and a batch.
-/

namespace Thubo
namespace Tx

/-! ## Writing into a batch with room for a header -/

section

variable {p : Priority} {stage after : Stage} {push : Push}
variable {parts : List (List Share)} {current : List Share}

/-- The push has not failed. -/
def Wrote (stage : Stage) (push : Push) (after : Stage) : Prop :=
  after.log = stage.log ∨
    after.log = stage.log ++ [⟨push.msg, push.qos, .ok ()⟩]

theorem returnNotify_wrote (batch : WriteBatch) (flush : Bool) :
    Wrote stage push (stage.returnNotify push batch flush) := by
  unfold Stage.returnNotify
  split
  · exact Or.inr rfl
  · exact Or.inr rfl

theorem moveFragment_wrote (batch : WriteBatch) (fragId : SeqNum)
    {reader : BytesReader} (placed : reader.Placed) :
    ∃ after, stage.moveFragment push batch fragId reader = .ok after ∧
      Wrote stage push after := by
  unfold Stage.moveFragment
  simp only [placed.remaining_eq, ok_bind]
  split
  · exact ⟨_, rfl, Or.inl rfl⟩
  · exact ⟨_, rfl, Or.inr rfl⟩

/-- A new frame or a first fragment is written. -/
theorem frameStep_wrote {batch : WriteBatch} {batchSize : Nat}
    (writable : batch.Writable batchSize)
    (bounded : push.msg.len < 2 ^ 64)
    (takes : stage.takes push batch = true) (flush : Bool) :
    ∃ after, stage.frameStep push batch flush = .ok after ∧
      Wrote stage push after := by
  have spec := batch.startFrame_spec
    (.new push.qos (stage.pool.gen push.qos.congestionControl).next) bounded
  have length := WriteBatch.length_frame
    (.new push.qos (stage.pool.gen push.qos.congestionControl).next) bounded
  unfold Stage.frameStep
  dsimp only
  rw [Stage.takes, Bool.or_eq_true, decide_eq_true_iff,
    decide_eq_true_iff] at takes
  by_cases room : (Message.mk (.new push.qos
      (stage.pool.gen push.qos.congestionControl).next)
        (.frame .new)).wLen + push.msg.wLen ≤ batch.frame.remaining
  · rw [spec.1 (length ▸ room), ok_bind]
    exact ⟨_, rfl, returnNotify_wrote _ flush⟩
  · rw [spec.2 (length ▸ Nat.lt_of_not_le room), ok_bind]
    have headed := takes.resolve_left room
    rw [← WriteBatch.length_firstHeader _ _ bounded] at headed
    have flagged := writable.flagged
      (stage.takeFragId stage.pool.fragId.next).dropFlag
    rcases WriteBatch.startFragments_fits flagged bounded headed
        (Nat.lt_of_not_le room) with ⟨next, reader, ran, carried⟩
    simp only [ran, ok_bind]
    exact moveFragment_wrote next _ carried.placed

/-- The running push writes into a batch that has room for it. -/
theorem resume_wrote (traced : Traced p stage parts current)
    (isRunning : stage.running = some push)
    (roomy : stage.roomy = true) (flush : Bool) :
    ∃ after, stage.resume push flush = .ok after ∧
      Wrote stage push after := by
  rcases traced.running push isRunning with ⟨_, bounded, goesOn⟩
  simp only [Stage.roomy, isRunning] at roomy
  unfold Stage.resume
  cases point : push.point with
  | fragments seqNum fragId reader =>
      rw [point] at goesOn roomy
      rcases goesOn with ⟨free, placed, _⟩
      have fresh := (refilled_fresh free push.qos stage.dropFlag).1
      have room := of_decide_eq_true roomy
      dsimp only [Stage.fragmentStep]
      rcases WriteBatch.continueFragments_fits fresh.writable
          (.new push.qos seqNum) fragId placed room with
        ⟨next, rest, ran, carried⟩
      simp only [ran, ok_bind]
      exact moveFragment_wrote next fragId carried.placed
  | fresh =>
      rw [point] at goesOn roomy
      have fresh := (refilled_fresh goesOn.1 push.qos none).1
      exact frameStep_wrote fresh.writable bounded roomy flush
  | start =>
      rw [point] at roomy
      have writable : (stage.batch push.qos none).Writable
          stage.batchSize := by
        cases isBooked : stage.booked with
        | none => exact (refilled_fresh isBooked push.qos none).1.writable
        | some batch =>
            rw [Stage.batch, isBooked]
            exact (traced.booked batch isBooked).writable
      dsimp only
      split
      · rename_i empty
        simp only [empty, Bool.not_true, Bool.false_or] at roomy
        exact frameStep_wrote writable bounded roomy flush
      · split
        · have spec := WriteBatch.encode_spec
            (Bytes.write_writes push.msg bounded)
            (stage.batch push.qos none)
          rw [WriteBatch.append]
          by_cases room : push.msg.encoded.length ≤
              (stage.batch push.qos none).frame.remaining
          · rw [spec.1 room, ok_bind]
            exact ⟨_, rfl, returnNotify_wrote _ flush⟩
          · rw [spec.2 (Nat.lt_of_not_le room), ok_bind]
            exact ⟨_, rfl, Or.inl rfl⟩
        · exact ⟨_, rfl, Or.inl rfl⟩

/-- The same, for a step. -/
theorem step_wrote (traced : Traced p stage parts current)
    (isRunning : stage.running = some push)
    (roomy : stage.roomy = true) (flush : Bool) :
    ∃ after, stage.step (.resume flush) = .ok (some after) ∧
      Wrote stage push after := by
  rcases resume_wrote traced isRunning roomy flush with
    ⟨after, ran, wrote⟩
  refine ⟨after, ?_, wrote⟩
  simp only [Stage.step, isRunning, ran]
  rfl

/-- A push that has not failed to encode its message. -/
theorem Wrote.not_failed (wrote : Wrote stage push after)
    {error : SendError} :
    after.log ≠ stage.log ++ [⟨push.msg, push.qos, .error error⟩] := by
  intro failed
  rcases wrote with same | sent
  · rw [failed] at same
    have length := congrArg List.length same
    simp at length
  · rw [failed] at sent
    simp at sent

end

/-! ## The next step of the push that holds the lock -/

variable {p : Priority} {queue after : Queue}

/-- A push without a batch can end. -/
theorem abandon_exists {call : Nat} {error : SendError}
    (running : queue.stage.running.isSome)
    (free : queue.stage.booked = none) :
    ∃ after, queue.abandon call error = some after := by
  rcases Option.isSome_iff_exists.1 running with ⟨push, isRunning⟩
  unfold Queue.abandon
  simp only [Stage.step, isRunning, free]
  exact ⟨_, rfl⟩

/-- What is written decides what follows. -/
theorem Sound.serialize_exists (sound : Sound p queue) {call : Nat}
    (running : queue.stage.running.isSome)
    (roomy : queue.stage.roomy = true) :
    ∃ after, queue.serialize call = some after := by
  rcases Option.isSome_iff_exists.1 running with ⟨push, isRunning⟩
  rcases sound.traced with ⟨parts, current, traced⟩
  rcases step_wrote traced isRunning roomy false with ⟨stage, ran, _⟩
  rcases step_resumed traced ran with ⟨own, _, did⟩
  unfold Queue.serialize
  simp only [ran]
  cases did with
  | goesOn batch point committed booked later log size =>
      simp only [booked]
      exact ⟨_, rfl⟩
  | sent batch committed booked idle log size =>
      simp only [booked]
      exact ⟨_, rfl⟩
  | pending batch committed booked idle log size =>
      simp only [booked, log, List.getLast?_concat]
      exact ⟨_, rfl⟩
  | failed batch committed booked idle log size =>
      simp only [booked, log, List.getLast?_concat]
      exact ⟨_, rfl⟩

/-- The batch that is moved out can be committed. -/
theorem Sound.commit_exists (sound : Sound p queue) {call : Nat}
    {flush : Bool}
    (locked : queue.lock = some (.push call (.commit flush))) :
    ∃ after, queue.commit call flush = some after := by
  have agree := sound.agree
  rw [locked] at agree
  rcases agree.fits _ rfl with ⟨stage, ran, out⟩
  rcases sound.traced with ⟨parts, current, traced⟩
  rcases step_resumed traced ran with ⟨push, _, did⟩
  have taken : queue.pool.booked.isSome := by
    rw [agree.booked]
    simp [Inside.writes]
  rcases Option.isSome_iff_exists.1 taken with ⟨id, isBooked⟩
  unfold Queue.commit
  simp only [ran]
  cases did with
  | goesOn batch point committed booked later log size =>
      simp only [booked, committed, List.getLast?_concat, Pool.commit,
        isBooked]
      exact ⟨_, rfl⟩
  | sent batch committed booked idle log size =>
      simp only [booked, committed, List.getLast?_concat, Pool.commit,
        isBooked]
      exact ⟨_, rfl⟩
  | pending batch committed booked idle log size =>
      rw [booked] at out
      cases out
  | failed batch committed booked idle log size =>
      rw [booked] at out
      cases out

/-- A push that has a batch can book it. -/
theorem Sound.book_exists (sound : Sound p queue) {call : Nat}
    (locked : queue.lock = some (.push call .book)) :
    ∃ pool, queue.pool.book = some pool := by
  have agree := sound.agree
  rw [locked] at agree
  have carried : queue.pool.spare.isSome := by
    rw [agree.spare]
    rfl
  have unbooked : queue.pool.booked.isSome = false := by
    rw [agree.booked, (agree.fits _ rfl).2]
    rfl
  rw [Option.isSome_eq_false_iff, Option.isNone_iff_eq_none] at unbooked
  rcases Option.isSome_iff_exists.1 carried with ⟨id, isSpare⟩
  unfold Pool.book
  rw [isSpare, unbooked]
  exact ⟨_, rfl⟩

/-- A push that has found a recycled batch can take it. -/
theorem Sound.pop_exists (sound : Sound p queue) {call : Nat}
    (locked : queue.lock = some (.push call .pop)) :
    ∃ pool, queue.pool.popRefill = some pool := by
  have agree := sound.agree
  rw [locked] at agree
  have bare := agree.spare_none rfl
  rcases List.exists_cons_of_ne_nil (sound.recycled call locked) with
    ⟨slot, refill, found⟩
  unfold Pool.popRefill
  rw [found, bare]
  exact ⟨_, rfl⟩

/-- A push that holds the lock can go on. -/
theorem Sound.insideStep_exists (sound : Sound p queue) {call : Nat}
    {here : Inside} (locked : queue.lock = some (.push call here))
    (roomy : here = .serialize → queue.stage.roomy = true)
    (backoff closed : Bool) :
    ∃ after, queue.insideStep call backoff closed here = some after := by
  have agree := sound.agree
  rw [locked] at agree
  have fits := agree.fits here rfl
  cases here with
  | acquire => exact ⟨_, rfl⟩
  | pop =>
      rcases sound.pop_exists locked with ⟨pool, popped⟩
      simp only [Queue.insideStep, popped]
      exact ⟨_, rfl⟩
  | start => exact ⟨_, rfl⟩
  | room =>
      simp only [Queue.insideStep, agree.not_refuses]
      exact ⟨_, rfl⟩
  | book =>
      rcases sound.book_exists locked with ⟨pool, booked⟩
      simp only [Queue.insideStep, booked]
      exact ⟨_, rfl⟩
  | serialize => exact sound.serialize_exists fits (roomy rfl)
  | flush => exact ⟨_, rfl⟩
  | clear flush => exact ⟨_, rfl⟩
  | commit flush => exact sound.commit_exists locked
  | test =>
      simp only [Queue.insideStep]
      split <;> exact ⟨_, rfl⟩
  | signal =>
      simp only [Queue.insideStep]
      split
      · unfold Queue.close
        split
        · rename_i running
          exact abandon_exists running fits.1
        · exact ⟨_, rfl⟩
      · exact ⟨_, rfl⟩
  | update =>
      rcases fits with ⟨next, ran, booked, _⟩
      rcases Option.isSome_iff_exists.1 booked with ⟨batch, isBooked⟩
      simp only [Queue.insideStep, Queue.update, ran, isBooked]
      exact ⟨_, rfl⟩
  | wait => exact ⟨_, rfl⟩
  | fail error =>
      simp only [Queue.insideStep, Queue.fail]
      exact abandon_exists fits.1 fits.2.1
  | unlock result => exact ⟨_, rfl⟩

/-- A push that has not ended can go on, unless it waits for the lock. -/
theorem Sound.push_exists (sound : Sound p queue) {call : Nat} {c : Call}
    (found : queue.calls[call]? = some c)
    (roomy : queue.lock = some (.push call .serialize) →
      queue.stage.roomy = true)
    (backoff closed : Bool) :
    (∃ after, queue.step (.push call backoff closed) = some after) ∨
      (c.point = .waitLock ∧ queue.lock ≠ none) ∨
      (∃ result, c.point = .done result) ∨ c.point = .gone := by
  have enters : queue.lock = none →
      ∃ after, queue.enter call c = some after := by
    intro free
    have agree := sound.agree
    rw [free] at agree
    have idle := agree.idle rfl
    unfold Queue.enter
    simp only [Stage.step, idle]
    exact ⟨_, rfl⟩
  simp only [Queue.step, Queue.pushStep, found]
  cases point : c.point with
  | entry =>
      left
      dsimp only
      split <;> exact ⟨_, rfl⟩
  | tryLock =>
      left
      dsimp only
      split
      · rename_i free
        exact enters (Option.isNone_iff_eq_none.1 free)
      · exact ⟨_, rfl⟩
  | waitLock =>
      by_cases free : queue.lock = none
      · left
        rw [free]
        exact enters free
      · exact Or.inr (Or.inl ⟨rfl, free⟩)
  | inside =>
      left
      have told := sound.logged.told call c found
      rw [Call.Told, point] at told
      rcases told with ⟨here, locked⟩
      simp only [locked, if_true]
      exact sound.insideStep_exists locked
        (fun same => roomy (same ▸ locked)) backoff closed
  | test => exact Or.inl ⟨_, rfl⟩
  | signal => exact Or.inl ⟨_, rfl⟩
  | congest error => exact Or.inl ⟨_, rfl⟩
  | done result => exact Or.inr (Or.inr (Or.inl ⟨result, rfl⟩))
  | gone => exact Or.inr (Or.inr (Or.inr rfl))

end Tx
end Thubo
