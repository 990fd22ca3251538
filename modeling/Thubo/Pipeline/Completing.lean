import Thubo.Pipeline.Puller
import Thubo.Pipeline.RoundTrip
import Thubo.Pipeline.Returning

/-!
# Every call can complete

No reachable state of the transmit pipeline is a deadlock: the pushes, the
puller and the tasks that disable the pipeline can all go on until every call
has returned, or the puller waits with no lock and nothing to take.  The locks
are taken from the highest priority to the lowest one, so whoever holds the
lowest lock that is held does not wait.
-/

namespace Thubo

namespace Tx

/-! ## How far the puller and the tasks are from their end -/

/-- The steps that a task that disables the pipeline still takes. -/
def TaskPoint.turns : TaskPoint → Nat
  | .set => 13
  | .lock p => 12 - p.toNat
  | .flush p => 8 - p.toNat
  | .unlock p => 4 - p.toNat
  | .done => 0

/-- The steps that the puller takes before it finds or flushes a batch. -/
def PullPoint.turns : PullPoint → Nat
  | .idle | .parked | .gone => 0
  | .drainLock p => 59 - p.toNat
  | .drainFlush p => 55 - p.toNat
  | .drainLook p => 48 - 2 * p.toNat
  | .drainTake p => 47 - 2 * p.toNat
  | .drainUnlock p => 40 - p.toNat
  | .dropPull => 30
  | .dropRefill p => 29 - p.toNat
  | .clear _ => 25
  | .decide .. => 24
  | .refill .room _ _ => 23
  | .refill .put _ _ => 22
  | .refill .notify _ _ => 21
  | .unlock _ => 21
  | .test => 20
  | .look p => 19 - p.toNat
  | .take _ => 15
  | .setBackoff _ => 15
  | .yielding _ => 14
  | .load _ => 13
  | .age _ => 12
  | .setFlush _ => 11
  | .tryLock _ => 10
  | .flush _ => 9
  | .unsetBackoff => 8
  | .check => 7
  | .listening => 6

/-- The priority whose booked batch the puller is about to flush. -/
def PullPoint.seeks : PullPoint → Option Priority
  | .setBackoff p | .yielding p | .load p | .age p | .setFlush p
  | .tryLock p | .flush p => some p
  | _ => none

/-- A booked batch is committed before it is taken out of the ring. -/
def Queue.stock (queue : Queue) : Nat :=
  2 * queue.pool.booked.isSome.toNat + queue.pool.ring.length

/-- The way back when the booked batch is gone. -/
def detour (queues : Priority → Queue) (point : PullPoint) : Nat :=
  match point.seeks with
  | some p => if (queues p).pool.booked.isSome then 0 else 30
  | none => 0

/-- A step that is no push's. -/
def Queue.Action.Serving : Queue.Action → Prop
  | .call .. | .push .. | .expire _ | .cancel _ => False
  | _ => True

/-- What a step of the puller or of a task leaves in a queue. -/
structure Serves (queue later : Queue) : Prop where
  calls : later.calls = queue.calls
  bytes : later.bytes = queue.bytes
  stock : (later.pool.booked = queue.pool.booked ∧
      later.stock ≤ queue.stock) ∨
    (queue.pool.booked.isSome = true ∧ later.stock + 1 = queue.stock)

theorem serves_of_pool {queue later : Queue}
    (calls : later.calls = queue.calls) (bytes : later.bytes = queue.bytes)
    (booked : later.pool.booked = queue.pool.booked)
    (ring : later.pool.ring = queue.pool.ring) : Serves queue later where
  calls := calls
  bytes := bytes
  stock := by
    left
    rw [Queue.stock, Queue.stock, booked, ring]
    exact ⟨rfl, Nat.le_refl _⟩

theorem Stepped.serves {queue later : Queue} {act : Queue.Action}
    (stepped : Stepped queue act later) (serving : act.Serving) :
    Serves queue later := by
  cases stepped with
  | lock flusher free => exact serves_of_pool rfl rfl rfl rfl
  | nothing flusher locked free => exact serves_of_pool rfl rfl rfl rfl
  | flush flusher batch pool locked idle booked committed =>
      rcases Pool.commit_eq committed with ⟨id, taken, rfl⟩
      refine ⟨rfl, rfl, Or.inr ⟨by rw [taken]; rfl, ?_⟩⟩
      simp [Queue.stock, taken]
      omega
  | release flusher locked => exact serves_of_pool rfl rfl rfl rfl
  | requestFlush => exact serves_of_pool rfl rfl rfl rfl
  | take pool taken =>
      rcases Pool.take_eq taken with ⟨slot, ring, free, same⟩
      rw [same]
      refine ⟨rfl, rfl, Or.inl ⟨rfl, ?_⟩⟩
      simp [Queue.stock, ring]
  | uncongest => exact serves_of_pool rfl rfl rfl rfl
  | decide congested slot pool hand kept =>
      rcases Pool.keep_eq kept with ⟨found, first, rfl⟩
      exact serves_of_pool rfl rfl rfl rfl
  | collect slot taken pool took hand kept =>
      rcases Pool.take_eq took with ⟨first, ring, free, same⟩
      rcases Pool.keep_eq kept with ⟨found, again, rfl⟩
      rw [same]
      refine ⟨rfl, rfl, Or.inl ⟨rfl, ?_⟩⟩
      simp [Queue.stock, ring]
  | put slot pool put =>
      rcases Pool.put_eq put with ⟨held, rfl⟩
      exact serves_of_pool rfl rfl rfl rfl
  | notifyRefill => exact serves_of_pool rfl rfl rfl rfl
  | failRefill => exact serves_of_pool rfl rfl rfl rfl
  | _ => cases serving

/-- The same, for a queue that a run can reach. -/
theorem Sound.serves {p : Priority} {queue later : Queue}
    {act : Queue.Action} (sound : Sound p queue)
    (moved : queue.step act = some later) (serving : act.Serving) :
    Serves queue later :=
  (sound.stepped moved).serves serving

/-- A batch leaves the ring. -/
theorem Stepped.stock_lt {queue later : Queue} {act : Queue.Action}
    (stepped : Stepped queue act later) (takes : act = .take ∨ act = .collect) :
    later.stock < queue.stock := by
  cases stepped with
  | take pool taken =>
      rcases Pool.take_eq taken with ⟨slot, ring, free, same⟩
      rw [same]
      simp [Queue.stock, ring]
  | collect slot taken pool took hand kept =>
      rcases Pool.take_eq took with ⟨first, ring, free, same⟩
      rcases Pool.keep_eq kept with ⟨found, again, rfl⟩
      rw [same]
      simp [Queue.stock, ring]
  | _ => rcases takes with impossible | impossible <;> cases impossible

/-- The puller has nothing to do, or waits for a notification. -/
def PullPoint.Rests : PullPoint → Prop
  | .idle | .parked | .gone => True
  | _ => False

/-- The puller waits for a lock, or tries one. -/
def PullPoint.Asks (point : PullPoint) (p : Priority) : Prop :=
  point = .drainLock p ∨ point = .tryLock p

namespace Pipeline

variable {pipeline after : Pipeline} {action : Action}

/-- What the priorities still have for the puller. -/
def stock (pipeline : Pipeline) : Nat :=
  Priority.total fun p => (pipeline.queues p).stock

/-- The priorities whose backoff has shrunk since the puller looked. -/
def shrunk (pipeline : Pipeline) : Nat :=
  Priority.total fun p =>
    (Decidable.decide
      ((pipeline.queues p).bytes < pipeline.puller.bookedLen p)).toNat

/-- How far the tasks are from their end. -/
def taskTurns (pipeline : Pipeline) : Nat :=
  (pipeline.tasks.map TaskPoint.turns).sum

/-- How far the puller is from its end. -/
def pullTurns (pipeline : Pipeline) : Nat :=
  pipeline.puller.point.turns +
    detour pipeline.queues pipeline.puller.point

/-- How far the tasks and the puller are from their end. -/
def turns (pipeline : Pipeline) : Nat :=
  pipeline.taskTurns + pipeline.pullTurns + 40 * pipeline.stock +
    10 * pipeline.shrunk + 20 * pipeline.canPull.ok.toNat

/-! ## Steps that bring them closer -/

theorem taskTurns_set {task : Nat} {here there : TaskPoint}
    (at_ : pipeline.tasks[task]? = some here)
    (tasks : after.tasks = pipeline.tasks.set task there) :
    after.taskTurns + here.turns = pipeline.taskTurns + there.turns := by
  rw [taskTurns, tasks, List.set_eq_modify]
  exact sum_modify TaskPoint.turns at_

section

variable {p : Priority} {queue : Queue} {act : Queue.Action}
variable (serves : Serves (pipeline.queues p) queue)
variable (queues : after.queues = Priority.update pipeline.queues p queue)

include serves queues

omit serves in
theorem stock_of_update :
    after.stock + (pipeline.queues p).stock =
      pipeline.stock + queue.stock := by
  rw [stock, queues]
  exact Priority.total_update pipeline.queues p queue
    fun _ queue => queue.stock

theorem shrunk_of_serves
    (seen : after.puller.bookedLen = pipeline.puller.bookedLen) :
    after.shrunk = pipeline.shrunk := by
  have same : ∀ q, (after.queues q).bytes = (pipeline.queues q).bytes := by
    intro q
    rw [queues, Priority.update_apply]
    split
    · rename_i own
      rw [serves.bytes, own]
    · rfl
  simp only [shrunk, same, seen]

/-- A longer way is paid for by the batch that was committed. -/
theorem detour_of_serves (point : PullPoint) :
    detour after.queues point + 40 * queue.stock ≤
      detour pipeline.queues point + 40 * (pipeline.queues p).stock := by
  have most : detour after.queues point ≤ 30 := by
    unfold detour
    split
    · split <;> omega
    · omega
  rcases serves.stock with ⟨booked, less⟩ | ⟨_, less⟩
  · have same : detour after.queues point =
        detour pipeline.queues point := by
      unfold detour
      split
      · rename_i q seeks
        rw [queues, Priority.update_apply]
        split
        · rename_i own
          rw [booked, own]
        · rfl
      · rfl
    omega
  · omega

/-- The puller takes a step that is a step of a queue. -/
theorem turns_of_goes (tasks : after.tasks = pipeline.tasks)
    (seen : after.puller.bookedLen = pipeline.puller.bookedLen)
    (canPull : after.canPull = pipeline.canPull)
    (less : after.puller.point.turns +
        detour after.queues after.puller.point + 40 * queue.stock <
      pipeline.puller.point.turns +
        detour pipeline.queues pipeline.puller.point +
          40 * (pipeline.queues p).stock) :
    after.turns < pipeline.turns := by
  have stocks := stock_of_update queues
  have shrinks := shrunk_of_serves serves queues seen
  rw [turns, turns, shrinks, canPull, pullTurns, pullTurns, taskTurns,
    taskTurns, tasks]
  omega

/-- A task takes a step that is a step of a queue. -/
theorem turns_of_task {task : Nat} {here there : TaskPoint}
    (at_ : pipeline.tasks[task]? = some here)
    (tasks : after.tasks = pipeline.tasks.set task there)
    (puller : after.puller = pipeline.puller)
    (canPull : after.canPull = pipeline.canPull)
    (less : there.turns < here.turns) : after.turns < pipeline.turns := by
  have stocks := stock_of_update queues
  have shrinks := shrunk_of_serves serves queues (by rw [puller])
  have way := detour_of_serves serves queues pipeline.puller.point
  have sum := taskTurns_set at_ tasks
  rw [turns, turns, shrinks, canPull, pullTurns, pullTurns, puller]
  omega

end

/-- A step of the puller that changes no queue. -/
theorem turns_of_still (queues : after.queues = pipeline.queues)
    (tasks : after.tasks = pipeline.tasks)
    (seen : after.puller.bookedLen = pipeline.puller.bookedLen)
    (canPull : after.canPull = pipeline.canPull)
    (less : after.pullTurns < pipeline.pullTurns) :
    after.turns < pipeline.turns := by
  simp only [turns, taskTurns, stock, shrunk, queues, tasks, seen, canPull]
  omega

/-! ## Steps of the puller -/

section

variable {p : Priority} {queue : Queue} {act : Queue.Action}
variable (serves : Serves (pipeline.queues p) queue)
variable (queues : after.queues = Priority.update pipeline.queues p queue)
variable (tasks : after.tasks = pipeline.tasks)
variable (seen : after.puller.bookedLen = pipeline.puller.bookedLen)
variable (canPull : after.canPull = pipeline.canPull)

include serves queues tasks seen canPull

/-- The puller goes on to a point that seeks no booked batch. -/
theorem turns_of_away {here : PullPoint} (at_ : pipeline.puller.point = here)
    (there : PullPoint) (goes : after.puller.point = there)
    (seeks : there.seeks = none) (less : there.turns < here.turns) :
    after.turns < pipeline.turns := by
  apply turns_of_goes serves queues tasks seen canPull
  rw [goes, at_]
  have way : detour after.queues there = 0 := by
    rw [detour, seeks]
  have stocks : queue.stock ≤ (pipeline.queues p).stock := by
    rcases serves.stock with ⟨_, less⟩ | ⟨_, less⟩ <;> omega
  omega

/-- The puller goes on and seeks the same booked batch. -/
theorem turns_of_seeks {here : PullPoint}
    (at_ : pipeline.puller.point = here) (there : PullPoint)
    (goes : after.puller.point = there) (seeks : there.seeks = here.seeks)
    (less : there.turns < here.turns) : after.turns < pipeline.turns := by
  apply turns_of_goes serves queues tasks seen canPull
  rw [goes, at_]
  have way := detour_of_serves serves queues here
  have same : detour after.queues there = detour after.queues here := by
    rw [detour, detour, seeks]
  omega

/-- The puller takes a batch out of a ring. -/
theorem turns_of_take (fewer : queue.stock < (pipeline.queues p).stock)
    {here : PullPoint} (at_ : pipeline.puller.point = here)
    (there : PullPoint) (goes : after.puller.point = there)
    (seeks : there.seeks = none) (less : there.turns < here.turns + 40) :
    after.turns < pipeline.turns := by
  apply turns_of_goes serves queues tasks seen canPull
  rw [goes, at_]
  have way : detour after.queues there = 0 := by
    rw [detour, seeks]
  omega

end

/-- The puller goes on without a queue. -/
theorem turns_of_point (queues : after.queues = pipeline.queues)
    (tasks : after.tasks = pipeline.tasks)
    (seen : after.puller.bookedLen = pipeline.puller.bookedLen)
    (canPull : after.canPull = pipeline.canPull) {here : PullPoint}
    (at_ : pipeline.puller.point = here) (there : PullPoint)
    (goes : after.puller.point = there)
    (seeks : there.seeks = none ∨ there.seeks = here.seeks)
    (less : there.turns < here.turns) : after.turns < pipeline.turns := by
  refine turns_of_still queues tasks seen canPull ?_
  have way : detour pipeline.queues there ≤ detour pipeline.queues here := by
    rcases seeks with none | same
    · rw [detour, none]
      exact Nat.zero_le _
    · exact Nat.le_of_eq (by rw [detour, detour, same])
  rw [pullTurns, pullTurns, goes, at_, queues]
  omega

theorem next_seeks {p : Priority} {point : Priority → PullPoint}
    {last : PullPoint} (points : ∀ q, (point q).seeks = none)
    (final : last.seeks = none) : (next p point last).seeks = none := by
  unfold next
  split
  · exact points _
  · exact final

theorem look_turns {p : Priority}
    (at_ : pipeline.puller.point = .look p) :
    (pipeline.look p).turns < pipeline.turns := by
  unfold look
  dsimp only
  -- what has been seen does not count
  have goes : ∀ (pass : List Inspection) {point : PullPoint},
      (point.seeks = none ∨ (point.seeks = some p ∧
        (pipeline.queues p).pool.booked.isSome = true)) →
      point.turns < (PullPoint.look p).turns →
        ({ pipeline with puller :=
          { pipeline.puller with pass := pass } }.goTo point).turns <
            pipeline.turns := by
    intro pass point seeks less
    refine turns_of_still rfl rfl rfl rfl ?_
    have way : detour pipeline.queues point = 0 := by
      rcases seeks with none | ⟨some, booked⟩
      · rw [detour, none]
      · rw [detour, some]
        exact if_pos booked
    change point.turns + detour pipeline.queues point < pipeline.pullTurns
    rw [way, pullTurns, at_]
    omega
  split
  · exact goes _ (Or.inl rfl) (by cases p <;> decide)
  · split
    · rename_i booked
      unfold foundBooked
      dsimp only
      split
      · exact goes _ (Or.inl rfl) (by cases p <;> decide)
      · split
        · exact goes _ (Or.inr ⟨rfl, booked⟩) (by cases p <;> decide)
        · exact goes _ (Or.inr ⟨rfl, booked⟩) (by cases p <;> decide)
    · split
      · rename_i lower next
        refine goes _ (Or.inl rfl) ?_
        cases p <;> cases next <;> decide
      · unfold Pipeline.nothing
        dsimp only
        split
        · exact goes _ (Or.inl rfl) (by cases p <;> decide)
        · exact goes _ (Or.inl rfl) (by cases p <;> decide)

theorem load_turns {p : Priority}
    (at_ : pipeline.puller.point = .load p) :
    (pipeline.load p).turns < pipeline.turns := by
  have shrinks : (pipeline.load p).shrunk + (Decidable.decide
      ((pipeline.queues p).bytes < pipeline.puller.bookedLen p)).toNat =
        pipeline.shrunk := by
    have updated := Priority.total_update pipeline.puller.bookedLen p
      (pipeline.queues p).bytes fun q len =>
        (Decidable.decide ((pipeline.queues q).bytes < len)).toNat
    simp only [Nat.lt_irrefl, decide_false, Bool.toNat_false,
      Nat.add_zero] at updated
    exact updated
  have way : (pipeline.load p).pullTurns +
      (if (pipeline.queues p).bytes < pipeline.puller.bookedLen p then
        0 else 1) ≤ pipeline.pullTurns +
      (if (pipeline.queues p).bytes < pipeline.puller.bookedLen p then
        7 else 0) := by
    simp only [pullTurns, Pipeline.load, at_]
    by_cases less :
        (pipeline.queues p).bytes < pipeline.puller.bookedLen p
    · rw [if_pos less, if_pos less, Nat.compare_eq_lt.2 less]
      simp only [PullPoint.turns, detour, PullPoint.seeks]
      omega
    · rw [if_neg less, if_neg less]
      cases order : compare (pipeline.queues p).bytes
          (pipeline.puller.bookedLen p) with
      | lt => exact absurd (Nat.compare_eq_lt.1 order) less
      | eq =>
          simp only [PullPoint.turns, detour, PullPoint.seeks]
          omega
      | gt =>
          simp only [PullPoint.turns, detour, PullPoint.seeks]
          omega
  have rest : (pipeline.load p).turns = pipeline.taskTurns +
      (pipeline.load p).pullTurns + 40 * pipeline.stock +
        10 * (pipeline.load p).shrunk +
          20 * pipeline.canPull.ok.toNat := rfl
  rw [rest, turns]
  by_cases less : (pipeline.queues p).bytes < pipeline.puller.bookedLen p
  · simp only [less, decide_true, Bool.toNat_true, if_true] at shrinks way
    omega
  · simp only [less, decide_false, Bool.toNat_false, if_false]
      at shrinks way
    omega

theorem wait_turns {unset : PullPoint} (seeks : unset.seeks = none)
    (away : pipeline.puller.point.seeks = none)
    (less : unset.turns < pipeline.puller.point.turns)
    (few : 5 < pipeline.puller.point.turns) :
    (pipeline.wait unset).turns < pipeline.turns := by
  have here : pipeline.pullTurns = pipeline.puller.point.turns := by
    rw [pullTurns, detour, away]
    exact Nat.add_zero _
  have rest : (pipeline.wait unset).turns = pipeline.taskTurns +
      (pipeline.wait unset).pullTurns + 40 * pipeline.stock +
        10 * pipeline.shrunk := by
    have quiet : (pipeline.wait unset).canPull.ok = false := by
      simp only [wait, goTo, Event.check]
      split
      · rfl
      · split <;> rfl
    rw [turns, quiet]
    rfl
  have way : (pipeline.wait unset).pullTurns <
      pipeline.puller.point.turns + 20 * pipeline.canPull.ok.toNat := by
    have unseen : detour pipeline.queues unset = 0 := by
      rw [detour, seeks]
    rw [pullTurns, wait, goTo]
    dsimp only
    cases found : pipeline.canPull.check.1 with
    | ok =>
        have ok : pipeline.canPull.ok = true := by
          simp only [Event.check] at found
          split at found
          · cases found
          · split at found
            · assumption
            · cases found
        rw [ok]
        show 20 + 0 < pipeline.puller.point.turns + 20
        omega
    | unset =>
        show unset.turns + detour pipeline.queues unset < _
        omega
    | err =>
        show 0 + 0 < pipeline.puller.point.turns + _
        omega
  rw [rest, turns, here]
  omega

theorem unsetBackoff_turns
    (at_ : pipeline.puller.point = .unsetBackoff) :
    pipeline.unsetBackoff.turns < pipeline.turns := by
  have none : pipeline.unsetBackoff.shrunk = 0 := by
    simp [shrunk, Pipeline.unsetBackoff, Priority.total]
  have rest : pipeline.unsetBackoff.turns = pipeline.taskTurns +
      pipeline.unsetBackoff.pullTurns + 40 * pipeline.stock +
        10 * pipeline.unsetBackoff.shrunk +
          20 * pipeline.canPull.ok.toNat := rfl
  have way : pipeline.unsetBackoff.pullTurns < pipeline.pullTurns := by
    rw [pullTurns, pullTurns, at_]
    exact Nat.lt_succ_self 7
  rw [rest, turns, none]
  omega

/-! ## Every step of the puller -/

/-- A queue serves the puller, which goes on to a point nearer to its end. -/
theorem served_turns (sound : ∀ p, Sound p (pipeline.queues p))
    {p : Priority} {act : Queue.Action} {here point : PullPoint}
    (at_ : pipeline.puller.point = here)
    (stepped : pipeline.onTo p act point = some after)
    (serving : act.Serving) (seeks : point.seeks = none)
    (less : point.turns < here.turns) : after.turns < pipeline.turns := by
  rcases onTo_eq stepped with ⟨queue, moved, rfl⟩
  exact turns_of_away ((sound p).serves moved serving) rfl rfl rfl rfl at_
    point rfl seeks less

theorem take_turns (sound : ∀ p, Sound p (pipeline.queues p)) {p : Priority}
    (at_ : pipeline.puller.point = .take p)
    (stepped : pipeline.onTo p .take (.clear p) = some after) :
    after.turns < pipeline.turns := by
  rcases onTo_eq stepped with ⟨queue, moved, rfl⟩
  exact turns_of_take ((sound p).serves moved trivial) rfl rfl rfl rfl
    (((sound p).stepped moved).stock_lt (Or.inl rfl)) at_ (.clear p)
    rfl rfl (show 25 < 15 + 40 by decide)

theorem clear_turns (sound : ∀ p, Sound p (pipeline.queues p))
    {p : Priority} (at_ : pipeline.puller.point = .clear p)
    (stepped : pipeline.uncongest p = some after) :
    after.turns < pipeline.turns := by
  unfold uncongest at stepped
  split at stepped
  · exact served_turns sound at_ stepped trivial rfl (Nat.lt_succ_self 24)
  · cases stepped

theorem decide_turns (sound : ∀ p, Sound p (pipeline.queues p))
    {p : Priority} {congested : Bool}
    (at_ : pipeline.puller.point = .decide p congested)
    (stepped : pipeline.decide p congested = some after) :
    after.turns < pipeline.turns := by
  unfold Pipeline.decide at stepped
  split at stepped
  · rename_i slot hand
    split at stepped
    · exact served_turns sound at_ stepped trivial rfl
        (Nat.lt_succ_self 23)
    · split at stepped
      · rename_i middle moving
        rcases onTo_eq moving with ⟨queue, moved, rfl⟩
        cases stepped
        exact turns_of_away ((sound _).serves moved trivial) rfl rfl rfl
          rfl at_ .idle rfl rfl (Nat.zero_lt_succ 23)
      · cases stepped
  · cases stepped

theorem refill_turns (sound : ∀ p, Sound p (pipeline.queues p))
    {point : RefillPoint} {slot : Slot} {discarded : Bool}
    (at_ : pipeline.puller.point = .refill point slot discarded)
    (stepped : pipeline.refillStep slot discarded point = some after) :
    after.turns < pipeline.turns := by
  cases point with
  | room =>
      simp only [refillStep] at stepped
      split at stepped
      · exact served_turns sound at_ stepped trivial rfl
          (show 21 < 23 by decide)
      · cases stepped
        exact turns_of_point rfl rfl rfl rfl at_
          (.refill .put slot discarded) rfl (Or.inl rfl)
          (Nat.lt_succ_self 22)
  | put =>
      simp only [refillStep] at stepped
      exact served_turns sound at_ stepped trivial rfl
        (Nat.lt_succ_self 21)
  | notify =>
      simp only [refillStep] at stepped
      cases discarded with
      | true =>
          exact served_turns sound at_ stepped trivial rfl
            (Nat.lt_succ_self 20)
      | false =>
          exact served_turns sound at_ stepped trivial rfl
            (Nat.zero_lt_succ 20)

/-- An empty pass is shorter than the way back that was foreseen. -/
theorem flush_turns (sound : ∀ p, Sound p (pipeline.queues p))
    {p : Priority} (at_ : pipeline.puller.point = .flush p)
    (stepped : pipeline.onTo p (.flush .puller) (.unlock p) = some after) :
    after.turns < pipeline.turns := by
  rcases onTo_eq stepped with ⟨queue, moved, rfl⟩
  refine turns_of_goes ((sound p).serves moved trivial) rfl rfl rfl rfl ?_
  rw [at_]
  show 21 + 0 + 40 * queue.stock <
    9 + (if (pipeline.queues p).pool.booked.isSome then 0 else 30) +
      40 * (pipeline.queues p).stock
  have does := (sound p).stepped moved
  revert does
  generalize pipeline.queues p = source
  intro does
  cases does with
  | nothing flusher locked none =>
      rcases none with none
      simp [none, Queue.stock]
  | flush flusher batch pool locked idle booked committed =>
      rcases Pool.commit_eq committed with ⟨id, taken, rfl⟩
      simp [Queue.stock, taken]
      omega

theorem drainLook_turns {p : Priority}
    (at_ : pipeline.puller.point = .drainLook p)
    (stepped : pipeline.pullStep true = some after) :
    after.turns < pipeline.turns := by
  simp only [pullStep, at_] at stepped
  split at stepped
  · cases stepped
    exact turns_of_point rfl rfl rfl rfl at_ (.drainTake p) rfl
      (Or.inl rfl) (by cases p <;> decide)
  · cases stepped
    exact turns_of_point rfl rfl rfl rfl at_
      (next p .drainLook (.drainUnlock .high)) rfl
      (Or.inl (next_seeks (fun _ => rfl) rfl)) (by cases p <;> decide)

theorem drainTake_turns (sound : ∀ p, Sound p (pipeline.queues p))
    {p : Priority} (at_ : pipeline.puller.point = .drainTake p)
    (stepped : pipeline.onTo p .collect (.drainLook .high) = some after) :
    after.turns < pipeline.turns := by
  rcases onTo_eq stepped with ⟨queue, moved, rfl⟩
  exact turns_of_take ((sound p).serves moved trivial) rfl rfl rfl rfl
    (((sound p).stepped moved).stock_lt (Or.inr rfl)) at_
    (.drainLook .high) rfl rfl (by cases p <;> decide)

theorem drainUnlock_turns (sound : ∀ p, Sound p (pipeline.queues p))
    {p : Priority} (at_ : pipeline.puller.point = .drainUnlock p)
    (stepped : pipeline.pullStep true = some after) :
    after.turns < pipeline.turns := by
  simp only [pullStep, at_] at stepped
  split at stepped
  · rename_i middle moving
    rcases onTo_eq moving with ⟨queue, moved, rfl⟩
    cases stepped
    exact turns_of_away ((sound p).serves moved trivial) rfl rfl rfl rfl
      at_ (next p .drainUnlock .idle) rfl (next_seeks (fun _ => rfl) rfl)
      (by cases p <;> decide)
  · cases stepped

/-- The notification that was pending is gone. -/
theorem dropPull_turns (at_ : pipeline.puller.point = .dropPull)
    (stepped : pipeline.pullStep true = some after) :
    after.turns < pipeline.turns := by
  simp only [pullStep, at_] at stepped
  cases stepped
  have rest : pipeline.turns = pipeline.taskTurns + (30 + 0) +
      40 * pipeline.stock + 10 * pipeline.shrunk +
        20 * pipeline.canPull.ok.toNat := by
    rw [turns, pullTurns, at_]
    rfl
  rw [rest]
  show pipeline.taskTurns + (29 + 0) + 40 * pipeline.stock +
    10 * pipeline.shrunk + 20 * 0 < _
  omega

/-- The puller can go on when the lock it asks for is free. -/
theorem Ready.pull_exists (ready : Ready pipeline)
    (busy : ¬ pipeline.puller.point.Rests)
    (free : ∀ p, pipeline.puller.point.Asks p →
      (pipeline.queues p).lock = none) :
    ∃ after, pipeline.pullStep true = some after := by
  refine ready.pullStep_exists true ?_ ?_ ?_
  · intro at_
    rw [at_] at busy
    exact busy trivial
  · intro at_
    rw [at_] at busy
    exact busy trivial
  · intro p at_
    exact free p (Or.inl at_)

/-- The puller gets closer to its end when the lock it asks for is free. -/
theorem Ready.pull_closer (ready : Ready pipeline)
    (busy : ¬ pipeline.puller.point.Rests)
    (free : ∀ p, pipeline.puller.point.Asks p →
      (pipeline.queues p).lock = none) :
    ∃ after, pipeline.pullStep true = some after ∧
      after.turns < pipeline.turns := by
  have sound := ready.sound
  rcases ready.pull_exists busy free with ⟨after, stepped⟩
  refine ⟨after, stepped, ?_⟩
  cases at_ : pipeline.puller.point with
  | idle | gone | parked =>
      rw [at_] at busy
      exact absurd trivial busy
  | test =>
      simp only [pullStep, at_] at stepped
      split at stepped
      · cases stepped
        exact turns_of_point rfl rfl rfl rfl at_ .idle rfl (Or.inl rfl)
          (Nat.zero_lt_succ 19)
      · cases stepped
        exact turns_of_point rfl rfl rfl rfl at_ (.look .high) rfl
          (Or.inl rfl) (Nat.lt_succ_self 19)
  | look p =>
      simp only [pullStep, at_] at stepped
      cases stepped
      exact look_turns at_
  | take p =>
      simp only [pullStep, at_] at stepped
      exact take_turns sound at_ stepped
  | clear p =>
      simp only [pullStep, at_] at stepped
      exact clear_turns sound at_ stepped
  | decide p congested =>
      simp only [pullStep, at_] at stepped
      exact decide_turns sound at_ stepped
  | refill point slot discarded =>
      simp only [pullStep, at_] at stepped
      exact refill_turns sound at_ stepped
  | setBackoff p =>
      simp only [pullStep, at_] at stepped
      cases stepped
      exact turns_of_point rfl rfl rfl rfl at_ (.yielding p) rfl
        (Or.inr rfl) (Nat.lt_succ_self 14)
  | yielding p =>
      simp only [pullStep, at_] at stepped
      cases stepped
      exact turns_of_point rfl rfl rfl rfl at_ (.load p) rfl
        (Or.inr rfl) (Nat.lt_succ_self 13)
  | load p =>
      simp only [pullStep, at_] at stepped
      cases stepped
      exact load_turns at_
  | age p =>
      simp only [pullStep, at_] at stepped
      cases stepped
      exact turns_of_point rfl rfl rfl rfl at_ (.setFlush p) rfl
        (Or.inr rfl) (Nat.lt_succ_self 11)
  | setFlush p =>
      simp only [pullStep, at_] at stepped
      rcases onTo_eq stepped with ⟨queue, moved, rfl⟩
      exact turns_of_seeks ((sound p).serves moved trivial) rfl rfl rfl rfl
        at_ (.tryLock p) rfl rfl (Nat.lt_succ_self 10)
  | tryLock p =>
      have open_ := free p (Or.inr at_)
      simp only [pullStep, at_, open_, Option.isNone_none, if_true]
        at stepped
      rcases onTo_eq stepped with ⟨queue, moved, rfl⟩
      exact turns_of_seeks ((sound p).serves moved trivial) rfl rfl rfl rfl
        at_ (.flush p) rfl rfl (Nat.lt_succ_self 9)
  | flush p =>
      simp only [pullStep, at_] at stepped
      exact flush_turns sound at_ stepped
  | unlock p =>
      simp only [pullStep, at_] at stepped
      exact served_turns sound at_ stepped trivial rfl
        (Nat.lt_succ_self 20)
  | unsetBackoff =>
      simp only [pullStep, at_] at stepped
      cases stepped
      exact unsetBackoff_turns at_
  | check =>
      simp only [pullStep, at_] at stepped
      cases stepped
      refine wait_turns rfl ?_ ?_ ?_ <;> rw [at_] <;> decide
  | listening =>
      simp only [pullStep, at_] at stepped
      cases stepped
      refine wait_turns rfl ?_ ?_ ?_ <;> rw [at_] <;> decide
  | drainLock p =>
      simp only [pullStep, at_] at stepped
      exact served_turns sound at_ stepped trivial
        (next_seeks (fun _ => rfl) rfl) (by cases p <;> decide)
  | drainFlush p =>
      simp only [pullStep, at_] at stepped
      exact served_turns sound at_ stepped trivial
        (next_seeks (fun _ => rfl) rfl) (by cases p <;> decide)
  | drainLook p => exact drainLook_turns at_ stepped
  | drainTake p =>
      simp only [pullStep, at_] at stepped
      exact drainTake_turns sound at_ stepped
  | drainUnlock p => exact drainUnlock_turns sound at_ stepped
  | dropPull => exact dropPull_turns at_ stepped
  | dropRefill p =>
      simp only [pullStep, at_] at stepped
      exact served_turns sound at_ stepped trivial
        (next_seeks (fun _ => rfl) rfl) (by cases p <;> decide)

end Pipeline
end Tx
end Thubo
