import Thubo.Pipeline.Marked
import Thubo.Pipeline.Puller

/-!
# What drain hands out

Once `drain` has its last lock no push writes or commits anything, so it
hands out what was in the rings and what was booked at that moment, oldest
first, and it leaves nothing behind when it starts to release the locks.
-/

namespace Thubo
namespace Tx

/-! ## A queue that is locked -/

/-- What is still to leave a queue, oldest first. -/
def Queue.waiting (queue : Queue) : List WriteBatch :=
  queue.pool.ring.map Slot.batch ++ queue.stage.booked.toList

/-- What a queue has handed out and what is still to leave it. -/
def Queue.stream (queue : Queue) : List WriteBatch :=
  queue.out ++ queue.waiting.map WriteBatch.writeLen

/-- Nothing waits in a queue. -/
structure Queue.Bare (queue : Queue) : Prop where
  booked : queue.stage.booked = none
  ring : queue.pool.ring = []
  hand : queue.pool.hand = none

variable {queue later : Queue} {act : Queue.Action}

/-- While the puller holds the lock the pushes change no batch. -/
theorem Stepped.frozen (stepped : Stepped queue act later)
    (locked : queue.Locked) (foreign : act.Foreign) :
    later.pool = queue.pool ∧ later.stage = queue.stage ∧
      later.left = queue.left := by
  cases stepped with
  | enter call c backoff closed found point free idle =>
      cases locked.symm.trans free
  | lock flusher free => cases locked.symm.trans free
  | flush flusher batch pool held idle booked committed =>
      cases locked.symm.trans held
      exact absurd rfl foreign
  | take pool taken => cases foreign
  | decide congested slot pool inspected kept => cases foreign
  | collect slot taken pool took inspected kept => cases foreign
  | put slot pool put => cases foreign
  | call | walk | congest | overtime | leave | nothing | release
  | requestFlush | uncongest | notifyRefill | failRefill =>
      exact ⟨rfl, rfl, rfl⟩
  | _ => exact absurd locked (Holding.not_locked ‹Holding queue _ _›)

/-- A flush of the puller books nothing any more. -/
theorem Stepped.emptied (sound : Sound p queue)
    (stepped : Stepped queue (.flush .puller) later) :
    later.stage.booked = none ∧ later.stream = queue.stream := by
  cases stepped with
  | nothing flusher held free =>
      have agree := sound.agree
      rw [held] at agree
      have same := agree.booked_eq rfl
      rw [free] at same
      exact ⟨Option.isNone_iff_eq_none.1
        (Option.isSome_eq_false_iff.1 same.symm), rfl⟩
  | flush flusher batch pool held idle booked committed =>
      rcases Pool.commit_eq committed with ⟨id, taken, rfl⟩
      refine ⟨rfl, ?_⟩
      simp [Queue.stream, Queue.waiting, Queue.out, Stage.commit, booked]

/-- The oldest batch moves from what waits to what is handed out. -/
theorem Stepped.drained (stepped : Stepped queue .collect later) :
    later.stage = queue.stage ∧ later.stream = queue.stream ∧
      ∃ slot, queue.pool.ring = slot :: later.pool.ring := by
  cases stepped with
  | collect slot taken pool took inspected kept =>
      rcases Pool.take_eq took with ⟨first, ring, free, same⟩
      rcases Pool.keep_eq kept with ⟨again, hand, rfl⟩
      rw [same] at inspected
      cases inspected
      refine ⟨rfl, ?_, slot, ring⟩
      simp [Queue.stream, Queue.waiting, Queue.out, ring,
        List.filter_append]

/-! ## How far drain has got -/

/-- `drain` has flushed the priority. -/
def PullPoint.Flushed (p : Priority) : PullPoint → Prop
  | .drainFlush q => p.toNat < q.toNat
  | .drainLook _ | .drainTake _ | .drainUnlock _ => True
  | _ => False

/-- `drain` has seen the ring of the priority empty. -/
def PullPoint.Seen (p : Priority) : PullPoint → Prop
  | .drainLook q | .drainTake q => p.toNat < q.toNat
  | .drainUnlock _ => True
  | _ => False

namespace Pipeline

variable {pipeline after : Pipeline} {action : Action}

/-- What `drain` has done since it has all locks. -/
structure Gathers (begun pipeline : Pipeline) : Prop where
  ready : Ready pipeline
  flushed : ∀ p, pipeline.puller.point.Flushed p →
    (pipeline.queues p).stage.booked = none
  seen : ∀ p, pipeline.puller.point.Seen p →
    (pipeline.queues p).pool.ring = []
  stream : ∀ p, (pipeline.queues p).stream = (begun.queues p).stream

/-- `drain` has all locks and has not started to release them. -/
def Gathering (pipeline : Pipeline) (_ : Action) : Prop :=
  Emptying pipeline.puller.point

instance : DecidableRel Gathering := fun pipeline _ => by
  unfold Gathering
  cases pipeline.puller.point <;>
    first | exact .isTrue trivial | exact .isFalse id

theorem gathers_start {begun : Pipeline} (ready : Ready begun)
    (locked : begun.puller.point = .drainFlush .high) :
    Gathers begun begun where
  ready := ready
  flushed p flushed := by
    rw [locked] at flushed
    exact absurd flushed (Nat.not_lt_zero _)
  seen p seen := by
    rw [locked] at seen
    cases seen
  stream p := rfl

theorem locked_of_emptying (ready : Ready pipeline)
    (emptying : Emptying pipeline.puller.point) (p : Priority) :
    (pipeline.queues p).Locked := by
  apply (ready.owned p .puller).2
  change pipeline.puller.point.Holds p
  cases at_ : pipeline.puller.point <;> rw [at_] at emptying <;>
    first | exact trivial | cases emptying

/-- Somebody else than the puller takes a step. -/
theorem Gathers.foreign {begun : Pipeline}
    (gathers : Gathers begun pipeline)
    (emptying : Emptying pipeline.puller.point) (ready : Ready after)
    {p : Priority} {queue : Queue} {act : Queue.Action}
    (stepped : (pipeline.queues p).step act = some queue)
    (foreign : act.Foreign) (puller : after.puller = pipeline.puller)
    (queues : after.queues = Priority.update pipeline.queues p queue) :
    Gathers begun after := by
  have locked := locked_of_emptying gathers.ready emptying p
  rcases ((gathers.ready.sound p).stepped stepped).frozen locked foreign
    with ⟨pool, stage, left⟩
  -- the queue that moves has the same batches
  have same : ∀ {motive : Priority → Queue → Prop},
      (motive p (pipeline.queues p) → motive p queue) →
        (∀ q, motive q (pipeline.queues q)) →
          ∀ q, motive q (after.queues q) := by
    intro motive moves all q
    rw [queues, Priority.update_apply]
    split
    · rename_i same
      rw [same]
      exact moves (all p)
    · exact all q
  constructor
  · exact ready
  · rw [puller]
    refine same (motive := fun q queue =>
      pipeline.puller.point.Flushed q → queue.stage.booked = none) ?_
        gathers.flushed
    rw [stage]
    exact id
  · rw [puller]
    refine same (motive := fun q queue =>
      pipeline.puller.point.Seen q → queue.pool.ring = []) ?_ gathers.seen
    rw [pool]
    exact id
  · refine same (motive := fun q queue =>
      queue.stream = (begun.queues q).stream) ?_ gathers.stream
    have stream : queue.stream = (pipeline.queues p).stream := by
      simp only [Queue.stream, Queue.waiting, Queue.out, pool, stage, left]
    rw [stream]
    exact id

theorem flushed_next {p q : Priority}
    (flushed : PullPoint.Flushed p
      (next q .drainFlush (.drainLook .high))) :
    PullPoint.Flushed p (.drainFlush q) ∨ p = q := by
  cases p <;> cases q <;>
    simp_all [PullPoint.Flushed, next, Priority.lower, Priority.toNat]

theorem not_seen_next {p q : Priority} :
    ¬ PullPoint.Seen p (next q .drainFlush (.drainLook .high)) := by
  cases p <;> cases q <;>
    simp [PullPoint.Seen, next, Priority.lower, Priority.toNat]

theorem seen_next {p q : Priority}
    (seen : PullPoint.Seen p (next q .drainLook (.drainUnlock .high))) :
    PullPoint.Seen p (.drainLook q) ∨ p = q := by
  cases p <;> cases q <;>
    simp_all [PullPoint.Seen, next, Priority.lower, Priority.toNat]

/-- `drain` flushes a queue, looks at one or takes a batch out of one. -/
theorem Gathers.pull {begun : Pipeline} {aged : Bool}
    (gathers : Gathers begun pipeline)
    (emptying : Emptying pipeline.puller.point) (ready : Ready after)
    (stepped : pipeline.pullStep aged = some after) :
    Gathers begun after := by
  have sound := gathers.ready.sound
  cases at_ : pipeline.puller.point with
  | drainFlush p =>
      simp only [pullStep, at_] at stepped
      rcases onTo_eq stepped with ⟨queue, moved, rfl⟩
      rcases ((sound p).stepped moved).emptied (sound p) with
        ⟨booked, stream⟩
      refine ⟨ready, fun q flushed => ?_, fun q seen => ?_, fun q => ?_⟩
      · change (Priority.update pipeline.queues p queue q).stage.booked = none
        rw [Priority.update_apply]
        split
        · exact booked
        · rename_i other
          rcases flushed_next flushed with before | same
          · exact gathers.flushed q (at_ ▸ before)
          · exact absurd same other
      · exact absurd seen not_seen_next
      · change (Priority.update pipeline.queues p queue q).stream = _
        rw [Priority.update_apply]
        split
        · rename_i same
          rw [stream, gathers.stream, same]
        · exact gathers.stream q
  | drainLook p =>
      have booked : ∀ q, (pipeline.queues q).stage.booked = none :=
        fun q => gathers.flushed q (at_ ▸ trivial)
      simp only [pullStep, at_] at stepped
      split at stepped
      · cases stepped
        exact ⟨ready, fun q _ => booked q,
          fun q seen => gathers.seen q (at_ ▸ seen), gathers.stream⟩
      · rename_i empty
        cases stepped
        refine ⟨ready, fun q _ => booked q, fun q seen => ?_,
          gathers.stream⟩
        rcases seen_next seen with before | same
        · exact gathers.seen q (at_ ▸ before)
        · rw [same]
          exact not_not.1 empty
  | drainTake p =>
      have booked : ∀ q, (pipeline.queues q).stage.booked = none :=
        fun q => gathers.flushed q (at_ ▸ trivial)
      simp only [pullStep, at_] at stepped
      rcases onTo_eq stepped with ⟨queue, moved, rfl⟩
      rcases ((sound p).stepped moved).drained with ⟨stage, stream, _⟩
      refine ⟨ready, fun q _ => ?_, fun q seen => ?_, fun q => ?_⟩
      · change (Priority.update pipeline.queues p queue q).stage.booked = none
        rw [Priority.update_apply]
        split
        · rw [stage]
          exact booked p
        · exact booked q
      · exact absurd seen (Nat.not_lt_zero _)
      · change (Priority.update pipeline.queues p queue q).stream = _
        rw [Priority.update_apply]
        split
        · rename_i same
          rw [stream, gathers.stream, same]
        · exact gathers.stream q
  | _ =>
      rw [at_] at emptying
      cases emptying

theorem Gathers.step {begun : Pipeline} (gathers : Gathers begun pipeline)
    (gathering : Gathering pipeline action)
    (stepped : pipeline.step action = some after) :
    Gathers begun after := by
  have ready := gathers.ready.step stepped
  have emptying : Emptying pipeline.puller.point := gathering
  have busy : ∀ {point : PullPoint}, pipeline.puller.point = point →
      Emptying point := fun same => same ▸ emptying
  cases step_did stepped with
  | call msg qos queue bounded moved =>
      exact gathers.foreign emptying ready moved trivial rfl rfl
  | push p call queue moved =>
      exact gathers.foreign emptying ready moved trivial rfl rfl
  | expire p call queue moved =>
      exact gathers.foreign emptying ready moved trivial rfl rfl
  | cancel p call queue moved =>
      exact gathers.foreign emptying ready moved trivial rfl rfl
  | puller aged after pulls => exact gathers.pull emptying ready stepped
  | disable =>
      exact ⟨ready, gathers.flushed, gathers.seen, gathers.stream⟩
  | disabled task at_ =>
      exact ⟨ready, gathers.flushed, gathers.seen, gathers.stream⟩
  | task task p act point queue disables moved =>
      refine gathers.foreign emptying ready moved ?_ rfl rfl
      cases disables <;> exact Flusher.noConfusion
  | pull mode idle undrained => cases busy idle
  | refill p slot idle held => cases busy idle
  | drain idle undrained => cases busy idle
  | drop idle => cases busy idle
  | cancelPull waits =>
      rcases waits with ⟨p, at_⟩ | at_
      · cases busy at_
      · cases busy at_

/-- Nothing is left when `drain` starts to release the locks. -/
theorem Gathers.bare {begun : Pipeline} (gathers : Gathers begun pipeline)
    (ended : pipeline.puller.point = .drainUnlock .high) (p : Priority) :
    (pipeline.queues p).Bare := by
  refine ⟨gathers.flushed p (ended ▸ trivial),
    gathers.seen p (ended ▸ trivial), gathers.ready.tidy.hand_eq ?_⟩
  rw [ended]
  exact id

/-! ## Every run -/

/--
From its last lock to its first release `drain` hands out exactly the batches
that were committed or booked when it had the locks, in their order, whatever
the pushes, their timers and the tasks that disable the pipeline do in
between; and it leaves nothing in any queue.
-/
theorem drain_hands_out {capacity batchSize : Nat}
    (small : batchSize ≤ 65535) {actions more : List Action}
    {begun done : Pipeline}
    (ran : run (new capacity batchSize) actions = some begun)
    (locked : begun.puller.point = .drainFlush .high)
    (gathering : Runs.Guarded step Gathering begun more)
    (went : run begun more = some done)
    (ended : done.puller.point = .drainUnlock .high) (p : Priority) :
    (done.queues p).Bare ∧
      (done.queues p).out = (begun.queues p).out ++
        (begun.queues p).waiting.map WriteBatch.writeLen := by
  have ready := (ready_new capacity small).run ran
  have gathers := Runs.invariant
    (fun _ _ _ gathers met stepped => Gathers.step gathers met stepped)
    (gathers_start ready locked) gathering went
  have bare := gathers.bare ended p
  refine ⟨bare, ?_⟩
  simpa [Queue.stream, Queue.waiting, bare.booked, bare.ring] using
    gathers.stream p

/-- `drain` goes on, and in between a push comes and waits for its lock. -/
def contendedDrain : List Action :=
  List.replicate 2 (.puller false) ++
    [.call shortMessage ⟨0⟩, .push .high 2, .puller false, .push .high 2] ++
      List.replicate 9 (.puller false)

/-- A committed and a booked batch wait when `drain` has taken the locks. -/
theorem drain_hands_out_two :
    ∃ begun done : Pipeline,
      ((begun.queues .high).pool.ring.length = 1 ∧
        (begun.queues .high).stage.booked.isSome ∧
          (begun.queues .high).waiting.length = 2) ∧
      (done.queues .high).calls.length =
        (begun.queues .high).calls.length + 1 ∧
      (done.queues .high).Bare ∧
      (done.queues .high).out = (begun.queues .high).out ++
        (begun.queues .high).waiting.map WriteBatch.writeLen := by
  have passed : (run (new 2 100)
      (.call shortMessage ⟨8⟩ :: List.replicate 12 (.push .high 0) ++
        .call shortMessage ⟨0⟩ :: List.replicate 12 (.push .high 1) ++
        [.drain] ++ List.replicate 4 (.puller false))).any
          (fun begun => Decidable.decide
            ((begun.puller.point = .drainFlush .high ∧
              (begun.queues .high).pool.ring.length = 1 ∧
              (begun.queues .high).stage.booked.isSome ∧
              (begun.queues .high).waiting.length = 2) ∧
              Runs.Guarded step Gathering begun contendedDrain) &&
            (run begun contendedDrain).any
              fun done => Decidable.decide
                (done.puller.point = .drainUnlock .high ∧
                  (done.queues .high).calls.length =
                    (begun.queues .high).calls.length + 1)) = true := by
    decide +kernel
  rcases Runs.exists_of_any passed with ⟨begun, ran, both⟩
  rw [Bool.and_eq_true] at both
  rcases of_decide_eq_true both.1 with ⟨⟨locked, two⟩, gathering⟩
  rcases Runs.exists_of_any both.2 with ⟨done, went, ends⟩
  rcases of_decide_eq_true ends with ⟨ended, called⟩
  exact ⟨begun, done, two, called, drain_hands_out (by decide) ran locked
    gathering went ended .high⟩

end Pipeline
end Tx
end Thubo
