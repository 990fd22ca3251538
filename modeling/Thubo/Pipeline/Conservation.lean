import Thubo.Pipeline.Moves

/-!
# No batch is lost

Batches go round between the pushes of a priority and the puller.  Each of
them is in one place, no ring is ever too full for one of them, and so no
push ends with an internal error and no batch that is given back is lost.
-/

namespace Thubo
namespace Tx

/-! ## Steps of pushes and of the puller -/

variable {queue later : Queue} {act : Queue.Action}

/-- The capacities never change. -/
theorem Stepped.capacity (stepped : Stepped queue act later) :
    later.pool.capacity = queue.pool.capacity ∧
      later.pool.rbCapacity = queue.pool.rbCapacity := by
  cases stepped with
  | quiet call backoff closed here there after holding goes inner =>
      rw [inner]
      exact ⟨rfl, rfl⟩
  | allocate call backoff closed holding free dry =>
      dsimp only [Pool.allocate]
      split <;> exact ⟨rfl, rfl⟩
  | pop call backoff closed pool holding popped =>
      rcases Pool.popRefill_eq popped with ⟨slot, first, bare, same⟩
      rw [same]
      exact ⟨rfl, rfl⟩
  | book call backoff closed pool holding booked =>
      rcases Pool.book_eq booked with ⟨id, bare, free, rfl⟩
      exact ⟨rfl, rfl⟩
  | commit call backoff closed flush stage batch pool holding resumed out
      free push running log committed =>
      rcases Pool.commit_eq committed with ⟨id, taken, rfl⟩
      exact ⟨rfl, rfl⟩
  | flush flusher batch pool locked idle booked committed =>
      rcases Pool.commit_eq committed with ⟨id, taken, rfl⟩
      exact ⟨rfl, rfl⟩
  | take pool taken =>
      rcases Pool.take_eq taken with ⟨slot, first, free, same⟩
      rw [same]
      exact ⟨rfl, rfl⟩
  | decide congested slot pool hand kept =>
      rcases Pool.keep_eq kept with ⟨found, first, rfl⟩
      exact ⟨rfl, rfl⟩
  | collect slot taken pool took hand kept =>
      rcases Pool.take_eq took with ⟨found, first, free, same⟩
      rcases Pool.keep_eq kept with ⟨found, again, rfl⟩
      rw [same]
      exact ⟨rfl, rfl⟩
  | put slot pool put =>
      rcases Pool.put_eq put with ⟨held, rfl⟩
      exact ⟨rfl, rfl⟩
  | _ => exact ⟨rfl, rfl⟩

/-- Pushes leave alone what the puller inspects or holds. -/
theorem Stepped.apart (stepped : Stepped queue act later)
    (pushing : act.Pushing) :
    later.pool.hand = queue.pool.hand ∧
      later.pool.held = queue.pool.held := by
  cases stepped with
  | quiet call backoff closed here there after holding goes inner =>
      rw [inner]
      exact ⟨rfl, rfl⟩
  | allocate call backoff closed holding free dry =>
      dsimp only [Pool.allocate]
      split <;> exact ⟨rfl, rfl⟩
  | pop call backoff closed pool holding popped =>
      rcases Pool.popRefill_eq popped with ⟨slot, first, bare, same⟩
      rw [same]
      exact ⟨rfl, rfl⟩
  | book call backoff closed pool holding booked =>
      rcases Pool.book_eq booked with ⟨id, bare, free, rfl⟩
      exact ⟨rfl, rfl⟩
  | commit call backoff closed flush stage batch pool holding resumed out
      free push running log committed =>
      rcases Pool.commit_eq committed with ⟨id, taken, rfl⟩
      exact ⟨rfl, rfl⟩
  | flush flusher batch pool locked idle booked committed =>
      rcases Pool.commit_eq committed with ⟨id, taken, rfl⟩
      exact ⟨rfl, rfl⟩
  | take pool taken => cases pushing
  | decide congested slot pool hand kept => cases pushing
  | collect slot taken pool took hand kept => cases pushing
  | put slot pool put => cases pushing
  | _ => exact ⟨rfl, rfl⟩

/-- A batch that is held can be given back. -/
theorem Queue.step_put {slot : Slot} (held : slot ∈ queue.pool.held) :
    queue.step (.put slot) =
      some
        { queue with
          pool :=
            { queue.pool with
              held := queue.pool.held.erase slot
              refill := queue.pool.refill ++
                [{ slot with batch := slot.batch.clear }] } } := by
  simp only [Queue.step, Queue.put, Pool.put, if_pos held]

/-- The puller holds the batch that it has inspected. -/
theorem Stepped.decided {congested : Bool} {slot : Slot}
    (stepped : Stepped queue (.decide congested) later)
    (hand : queue.pool.hand = some slot) : slot ∈ later.pool.held := by
  cases stepped with
  | decide congested inspected pool found kept =>
      rcases Pool.keep_eq kept with ⟨other, again, rfl⟩
      rw [hand] at again
      cases again
      exact List.mem_append_right _ (List.mem_singleton_self _)

/-! ## The puller gives a batch back -/

namespace Pipeline

variable {pipeline after : Pipeline} {action : Action}

/-- A batch that is being given back is one that the puller holds. -/
def Refilling (pipeline : Pipeline) : Prop :=
  ∀ slot discarded,
    pipeline.puller.point = .refill .room slot discarded ∨
      pipeline.puller.point = .refill .put slot discarded →
    slot ∈ (pipeline.queues slot.batch.qos.priority).pool.held

/-- A push that goes on does not touch the batches of the puller. -/
theorem Refilling.push (refilling : Refilling pipeline)
    (sound : ∀ p, Sound p (pipeline.queues p)) {p : Priority}
    {queue : Queue} {act : Queue.Action}
    (stepped : (pipeline.queues p).step act = some queue)
    (pushing : act.Pushing)
    (puller : after.puller = pipeline.puller)
    (queues : after.queues = Priority.update pipeline.queues p queue) :
    Refilling after := by
  intro slot discarded point
  rw [puller] at point
  have held := refilling slot discarded point
  rw [queues, Priority.update_apply]
  split
  · rename_i same
    rw [(((sound p).stepped stepped).apart pushing).2, ← same]
    exact held
  · exact held

/-- The puller is at no point of `StageOut::refill` with a batch. -/
theorem Refilling.elsewhere
    (elsewhere : ∀ point slot discarded,
      pipeline.puller.point = .refill point slot discarded →
        point = .notify) : Refilling pipeline := by
  intro slot discarded point
  rcases point with point | point
  · cases elsewhere _ _ _ point
  · cases elsewhere _ _ _ point

theorem next_ne_refill {p : Priority} {point : Priority → PullPoint}
    {last : PullPoint} {refilling : RefillPoint} {slot : Slot}
    {discarded : Bool}
    (points : ∀ q, point q ≠ .refill refilling slot discarded)
    (final : last ≠ .refill refilling slot discarded) :
    next p point last ≠ .refill refilling slot discarded := by
  unfold next
  split
  · exact points _
  · exact final

/-- The puller gives a batch back that it has just taken. -/
theorem Goes.refilling {p : Priority} {act : Queue.Action}
    {point : PullPoint} {queue : Queue}
    (goes : Goes pipeline p act point)
    (sound : ∀ p, Sound p (pipeline.queues p))
    (stepped : (pipeline.queues p).step act = some queue) :
    Refilling { pipeline with
      queues := Priority.update pipeline.queues p queue
      puller := { pipeline.puller with point := point } } := by
  cases goes with
  | discard p congested slot at_ hand fate =>
      have priority := (sound p).inspected slot (Or.inr hand)
      have held := ((sound p).stepped stepped).decided hand
      intro given discarded where_
      rcases where_ with same | same
      · cases same
        change slot ∈ (Priority.update pipeline.queues p queue
          slot.batch.qos.priority).pool.held
        rw [priority, Priority.update_same]
        exact held
      · cases same
  | notify slot discarded at_ =>
      apply Refilling.elsewhere
      intro refilling given again same
      cases discarded <;> cases same
  | drainLock p at_ =>
      apply Refilling.elsewhere
      intro refilling given again same
      exact absurd same (next_ne_refill (by simp) (by simp))
  | drainFlush p at_ =>
      apply Refilling.elsewhere
      intro refilling given again same
      exact absurd same (next_ne_refill (by simp) (by simp))
  | dropRefill p at_ =>
      apply Refilling.elsewhere
      intro refilling given again same
      exact absurd same (next_ne_refill (by simp) (by simp))
  | _ =>
      apply Refilling.elsewhere
      intro refilling given again same
      cases same <;> rfl

theorem Pulls.refilling (pulls : Pulls pipeline after)
    (sound : ∀ p, Sound p (pipeline.queues p))
    (refilling : Refilling pipeline) : Refilling after := by
  cases pulls with
  | goes p act point queue goes stepped => exact goes.refilling sound stepped
  | drainUnlock p queue point stepped =>
      apply Refilling.elsewhere
      intro refilling given again same
      exact absurd same (next_ne_refill (by simp) (by simp))
  | booked p point ring booked =>
      apply Refilling.elsewhere
      intro refilling given again same
      simp only [Pipeline.foundBooked, goTo] at same
      split at same
      · cases same
      · split at same <;> cases same
  | nothing p point ring free last =>
      apply Refilling.elsewhere
      intro refilling given again same
      simp only [Pipeline.nothing, goTo] at same
      split at same <;> cases same
  | room slot discarded point room =>
      intro given again where_
      rcases where_ with same | same
      · cases same
      · cases same
        exact refilling slot discarded (Or.inl point)
  | load p point =>
      apply Refilling.elsewhere
      intro refilling given again same
      simp only [Pipeline.load] at same
      split at same <;> cases same
  | age p aged point =>
      apply Refilling.elsewhere
      intro refilling given again same
      cases aged <;> cases same
  | check point =>
      apply Refilling.elsewhere
      intro refilling given again same
      simp only [Pipeline.wait, goTo] at same
      split at same <;> cases same
  | listening point =>
      apply Refilling.elsewhere
      intro refilling given again same
      simp only [Pipeline.wait, goTo] at same
      split at same <;> cases same
  | drainNothing p point ring =>
      apply Refilling.elsewhere
      intro refilling given again same
      exact absurd same (next_ne_refill (by simp) (by simp))
  | _ =>
      apply Refilling.elsewhere
      intro refilling given again same
      cases same

/-- What is being given back is held by the puller. -/
theorem Did.refilling (did : Did pipeline action after)
    (sound : ∀ p, Sound p (pipeline.queues p))
    (refilling : Refilling pipeline) : Refilling after := by
  cases did with
  | call msg qos queue bounded stepped =>
      exact refilling.push sound stepped trivial rfl rfl
  | push p call queue stepped =>
      exact refilling.push sound stepped trivial rfl rfl
  | expire p call queue stepped =>
      exact refilling.push sound stepped trivial rfl rfl
  | cancel p call queue stepped =>
      exact refilling.push sound stepped trivial rfl rfl
  | refill p slot idle held =>
      have priority := (sound p).routed slot (List.mem_append_left _ held)
      intro given discarded where_
      rcases where_ with same | same
      · cases same
        rw [priority]
        exact held
      · cases same
  | puller aged after pulls => exact pulls.refilling sound refilling
  | disable => exact refilling
  | disabled task point => exact refilling
  | task task p act point queue disables stepped =>
      refine refilling.push sound stepped ?_ rfl rfl
      cases disables <;> trivial
  | _ =>
      apply Refilling.elsewhere
      intro refilling given again same
      cases same

/-! ## Every run -/

/-- The batches of a priority are accounted for. -/
structure Balanced (capacity : Nat) (p : Priority) (pipeline : Pipeline) :
    Prop where
  /-- The refill stage creates at most `capacity` batches. -/
  created_le : (pipeline.queues p).pool.created ≤ capacity
  /-- Each of them is in exactly one place. -/
  placed : ∀ id, (pipeline.queues p).pool.places.count id =
    if id < (pipeline.queues p).pool.created then 1 else 0
  /-- The batches in the in-out ring carry the priority. -/
  ring : ∀ slot ∈ (pipeline.queues p).pool.ring,
    slot.batch.qos.priority = p
  /-- The booked batch carries the priority. -/
  booked : ∀ batch, (pipeline.queues p).stage.booked = some batch →
    batch.qos.priority = p
  /-- The batch that the puller inspects carries the priority. -/
  hand : ∀ slot, (pipeline.queues p).pool.hand = some slot →
    slot.batch.qos.priority = p
  /-- The batches that the puller holds carry the priority. -/
  held : ∀ slot ∈ (pipeline.queues p).pool.held,
    slot.batch.qos.priority = p
  /-- The batches in the refill ring carry the priority. -/
  refill : ∀ slot ∈ (pipeline.queues p).pool.refill,
    slot.batch.qos.priority = p
  /-- The in-out ring has room when a push is about to book a batch. -/
  room : ∀ call, (pipeline.queues p).lock = some (.push call .room) →
    (pipeline.queues p).pool.refuses = false
  /-- No push returns an internal error. -/
  proper : ∀ c ∈ (pipeline.queues p).calls,
    c.point ≠ .done (.error .internal)
  /-- The refill ring has room when a batch is given back. -/
  roomy : ∀ slot discarded, slot.batch.qos.priority = p →
    pipeline.puller.point = .refill .room slot discarded →
      (pipeline.queues p).pool.refillFull = false
  /-- The batch that is given back is added to the refill ring. -/
  returned : ∀ slot discarded, slot.batch.qos.priority = p →
    pipeline.puller.point = .refill .put slot discarded →
      ∃ after, (pipeline.queues p).step (.put slot) = some after ∧
        after.pool.refill = (pipeline.queues p).pool.refill ++
          [{ slot with batch := slot.batch.clear }]

/-- No push of a sound queue returns an internal error. -/
theorem not_internal {p : Priority} {queue : Queue}
    (sound : Sound p queue) {c : Call} (member : c ∈ queue.calls) :
    c.point ≠ .done (.error .internal) := by
  intro point
  rcases List.mem_iff_getElem?.1 member with ⟨call, found⟩
  have told := sound.logged.told call c found
  rw [Call.Told, point] at told
  rcases told with ⟨_, known⟩ | ended | ⟨closed, _⟩
  · rcases known with dropped | timeout
    · cases dropped
    · cases timeout
  · exact sound.proper.not_ended c ended
  · cases closed

theorem balanced_of_sound {capacity : Nat}
    (sound : ∀ p, Sound p (pipeline.queues p))
    (refilling : Refilling pipeline) (p : Priority)
    (size : (pipeline.queues p).pool.capacity = capacity) :
    Balanced capacity p pipeline where
  created_le := by
    rw [← size]
    exact (sound p).agree.conserved.created_le
  placed := (sound p).agree.conserved.count_places
  ring slot member := (sound p).inspected slot (Or.inl member)
  booked batch isBooked := by
    rcases (sound p).traced with ⟨parts, current, traced⟩
    exact (traced.booked batch isBooked).holds.priority_eq
  hand slot inspected := (sound p).inspected slot (Or.inr inspected)
  held slot member :=
    (sound p).routed slot (List.mem_append_left _ member)
  refill slot member :=
    (sound p).routed slot (List.mem_append_right _ member)
  room call locked := by
    have agree := (sound p).agree
    rw [locked] at agree
    exact agree.not_refuses
  proper c member := not_internal (sound p) member
  roomy slot discarded priority point := by
    have held := refilling slot discarded (Or.inl point)
    rw [priority] at held
    have room := (sound p).agree.conserved.refill_lt held
    rw [Pool.refillFull, beq_eq_false_iff_ne]
    omega
  returned slot discarded priority point := by
    have held := refilling slot discarded (Or.inr point)
    rw [priority] at held
    exact ⟨_, Queue.step_put held, rfl⟩

/--
In every run the batches of every priority are accounted for: no ring
overflows, no push returns an internal error and no batch is lost.
-/
theorem balanced_of_run {capacity batchSize : Nat}
    (small : batchSize ≤ 65535) {actions : List Action}
    (ran : run (new capacity batchSize) actions = some pipeline)
    (p : Priority) : Balanced capacity p pipeline := by
  have keeps : ∀ before action after,
      ((∀ p, Sound p (before.queues p)) ∧ Refilling before ∧
        ∀ p, (before.queues p).pool.capacity = capacity) →
      step before action = some after →
        (∀ p, Sound p (after.queues p)) ∧ Refilling after ∧
          ∀ p, (after.queues p).pool.capacity = capacity := by
    rintro before action after ⟨sound, refilling, size⟩ stepped
    have did := step_did stepped
    refine ⟨fun q => (did.moves q).sound (sound q),
      did.refilling sound refilling, fun q => ?_⟩
    rcases did.moves q with same | ⟨act, at_, moved⟩
    · rw [same]
      exact size q
    · rw [((sound q).stepped moved).capacity.1]
      exact size q
  have initially : (∀ p, Sound p ((new capacity batchSize).queues p)) ∧
      Refilling (new capacity batchSize) ∧
        ∀ p, ((new capacity batchSize).queues p).pool.capacity =
          capacity := by
    refine ⟨fun q => sound_new q capacity small, ?_, fun q => rfl⟩
    apply Refilling.elsewhere
    intro refilling given again same
    cases same
  rcases Runs.invariant_of_step keeps initially ran with
    ⟨sound, refilling, size⟩
  exact balanced_of_sound sound refilling p (size p)

/-- A batch is created, booked, committed and handed out. -/
theorem balanced_of_run_handed :
    ∃ pipeline : Pipeline, Balanced 1 .high pipeline ∧
      (pipeline.queues .high).pool.held.map Slot.id = [0] := by
  have passed : (run (new 1 100)
      ([.call shortMessage ⟨8⟩] ++ List.replicate 12 (.push .high 0) ++
        [.pull .pull] ++ List.replicate 5 (.puller false))).any
          (fun pipeline => (pipeline.queues .high).pool.held.map Slot.id =
            [0]) = true := by
    decide +kernel
  rcases Runs.exists_of_any passed with ⟨pipeline, ran, held⟩
  exact ⟨pipeline, balanced_of_run (by decide) ran .high,
    of_decide_eq_true held⟩

end Pipeline
end Tx
end Thubo
