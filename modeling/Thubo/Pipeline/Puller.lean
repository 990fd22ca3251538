import Thubo.Pipeline.Conservation
import Thubo.Pipeline.Locks
import Thubo.Pipeline.Scheduling

/-!
# The puller can always go on

The puller has a batch in its hand exactly while it inspects one, it holds
the locks that its point says, and what it gives back is its own.  So every
step that it is about to take is possible, but for the locks that `drain`
waits for.
-/

namespace Thubo
namespace Tx

/-! ## The hand of the puller -/

/-- The puller inspects a batch of the priority. -/
def PullPoint.Inspects (p : Priority) : PullPoint → Prop
  | .clear q | .decide q _ => q = p
  | _ => False

/-- The hand is filled by one step of the puller and emptied by another. -/
theorem Stepped.hand {queue later : Queue} {act : Queue.Action}
    (stepped : Stepped queue act later)
    (full : later.pool.hand.isSome = true) :
    act = .take ∨ (queue.pool.hand.isSome = true ∧
      ∀ congested, act ≠ .decide congested) := by
  cases stepped with
  | take pool taken => exact Or.inl rfl
  | quiet call backoff closed here there after holding goes inner =>
      rw [inner] at full
      exact Or.inr ⟨full, by simp⟩
  | allocate call backoff closed holding free dry =>
      refine Or.inr ⟨?_, by simp⟩
      dsimp only [Pool.allocate] at full
      split at full <;> exact full
  | pop call backoff closed pool holding popped =>
      rcases Pool.popRefill_eq popped with ⟨slot, first, bare, same⟩
      rw [same] at full
      exact Or.inr ⟨full, by simp⟩
  | book call backoff closed pool holding booked =>
      rcases Pool.book_eq booked with ⟨id, bare, free, rfl⟩
      exact Or.inr ⟨full, by simp⟩
  | commit call backoff closed flush stage batch pool holding resumed out
      free push running log committed =>
      rcases Pool.commit_eq committed with ⟨id, taken, rfl⟩
      exact Or.inr ⟨full, by simp⟩
  | flush flusher batch pool locked idle booked committed =>
      rcases Pool.commit_eq committed with ⟨id, taken, rfl⟩
      exact Or.inr ⟨full, by simp⟩
  | decide congested slot pool hand kept =>
      rcases Pool.keep_eq kept with ⟨found, first, rfl⟩
      cases full
  | collect slot taken pool took hand kept =>
      rcases Pool.keep_eq kept with ⟨found, first, rfl⟩
      cases full
  | put slot pool put =>
      rcases Pool.put_eq put with ⟨held, rfl⟩
      exact Or.inr ⟨full, by simp⟩
  | _ => exact Or.inr ⟨full, by simp⟩

namespace Pipeline

variable {pipeline after : Pipeline} {action : Action}

/--
The hand of the puller is empty when it inspects nothing, and `drain` takes
from a ring in which it has found a batch.
-/
structure Tidy (pipeline : Pipeline) : Prop where
  bare : ∀ p, (pipeline.queues p).pool.hand.isSome = true →
    pipeline.puller.point.Inspects p
  found : ∀ p, pipeline.puller.point = .drainTake p →
    (pipeline.queues p).pool.ring ≠ []

theorem tidy_new (capacity batchSize : Nat) :
    Tidy (new capacity batchSize) where
  bare p impossible := by
    cases impossible
  found p impossible := by
    cases impossible

/-- Somebody else than the puller takes a step. -/
theorem Tidy.push (tidy : Tidy pipeline) {p : Priority}
    (sound : Sound p (pipeline.queues p)) {queue : Queue}
    {act : Queue.Action}
    (stepped : (pipeline.queues p).step act = some queue)
    (pushing : act.Pushing) (puller : after.puller = pipeline.puller)
    (queues : after.queues = Priority.update pipeline.queues p queue) :
    Tidy after := by
  rcases (sound.stepped stepped).ring pushing with ⟨ring, hand, _⟩
  constructor
  · intro q full
    rw [puller]
    apply tidy.bare
    rw [queues, Priority.update_apply] at full
    split at full
    · rename_i same
      rw [same, ← hand]
      exact full
    · exact full
  · intro q at_
    rw [puller] at at_
    have batches := tidy.found q at_
    rw [queues, Priority.update_apply]
    split
    · rename_i same
      subst same
      intro empty
      rw [empty] at ring
      exact batches (List.prefix_nil.1 ring)
    · exact batches

/-- No queue changes, and the puller inspects nothing. -/
theorem Tidy.still (tidy : Tidy pipeline)
    (queues : after.queues = pipeline.queues)
    (before : ∀ p, ¬ pipeline.puller.point.Inspects p)
    (away : ∀ p, after.puller.point ≠ .drainTake p) : Tidy after where
  bare p full := by
    rw [queues] at full
    exact absurd (tidy.bare p full) (before p)
  found p at_ := absurd at_ (away p)

theorem next_ne_drainTake {p q : Priority} {point : Priority → PullPoint}
    {last : PullPoint} (points : ∀ r, point r ≠ .drainTake q)
    (final : last ≠ .drainTake q) : next p point last ≠ .drainTake q := by
  unfold next
  split
  · exact points _
  · exact final

theorem Goes.tidy {p : Priority} {act : Queue.Action} {point : PullPoint}
    {queue : Queue} (goes : Goes pipeline p act point)
    (tidy : Tidy pipeline) (sound : Sound p (pipeline.queues p))
    (stepped : (pipeline.queues p).step act = some queue) :
    Tidy { pipeline with
      queues := Priority.update pipeline.queues p queue
      puller := { pipeline.puller with point := point } } := by
  have moved := sound.stepped stepped
  -- what a full hand says of the step
  have full : ∀ q,
      (Priority.update pipeline.queues p queue q).pool.hand.isSome =
        true →
      (q = p ∧ act = .take) ∨ (pipeline.puller.point.Inspects q ∧
        (q = p → ∀ congested, act ≠ .decide congested)) := by
    intro q hand
    rw [Priority.update_apply] at hand
    split at hand
    · rename_i same
      subst same
      rcases moved.hand hand with take | ⟨before, keeps⟩
      · exact Or.inl ⟨rfl, take⟩
      · exact Or.inr ⟨tidy.bare q before, fun _ => keeps⟩
    · rename_i other
      exact Or.inr ⟨tidy.bare q hand, fun same => absurd same other⟩
  constructor
  · intro q hand
    have known := full q hand
    cases goes with
    | take p at_ =>
        rcases known with ⟨rfl, _⟩ | ⟨inspects, _⟩
        · rfl
        · rw [at_] at inspects
          cases inspects
    | clear p slot at_ inspected =>
        rcases known with ⟨_, impossible⟩ | ⟨inspects, _⟩
        · cases impossible
        · rw [at_] at inspects
          exact inspects
    | discard p congested slot at_ inspected fate =>
        rcases known with ⟨_, impossible⟩ | ⟨inspects, keeps⟩
        · cases impossible
        · rw [at_] at inspects
          exact absurd rfl (keeps inspects.symm congested)
    | reject slot discarded at_ | put slot discarded at_
    | notify slot discarded at_ =>
        rcases known with ⟨_, impossible⟩ | ⟨inspects, _⟩
        · cases impossible
        · rw [at_] at inspects
          cases inspects
    | setFlush p at_ | lock p at_ | flush p at_ | unlock p at_
    | drainLock p at_ | drainFlush p at_ | drainTake p at_
    | dropRefill p at_ =>
        rcases known with ⟨_, impossible⟩ | ⟨inspects, _⟩
        · cases impossible
        · rw [at_] at inspects
          cases inspects
  · intro q at_
    cases goes with
    | notify slot discarded from_ => cases discarded <;> cases at_
    | drainLock p from_ =>
        exact absurd at_ (next_ne_drainTake (by simp) (by simp))
    | drainFlush p from_ =>
        exact absurd at_ (next_ne_drainTake (by simp) (by simp))
    | dropRefill p from_ =>
        exact absurd at_ (next_ne_drainTake (by simp) (by simp))
    | _ => cases at_

theorem Pulls.tidy (pulls : Pulls pipeline after) (tidy : Tidy pipeline)
    (sound : ∀ p, Sound p (pipeline.queues p)) : Tidy after := by
  cases pulls with
  | goes p act point queue goes stepped =>
      exact goes.tidy tidy (sound p) stepped
  | handOut p congested slot queue at_ hand fate stepped =>
      constructor
      · intro q full
        change (Priority.update pipeline.queues p queue q).pool.hand.isSome =
          true at full
        rw [Priority.update_apply] at full
        split at full
        · rcases ((sound p).stepped stepped).hand full with
            impossible | ⟨_, keeps⟩
          · cases impossible
          · exact absurd rfl (keeps congested)
        · rename_i other
          have inspects := tidy.bare q full
          rw [at_] at inspects
          exact absurd inspects.symm other
      · intro q impossible
        cases impossible
  | drainUnlock p queue at_ stepped =>
      constructor
      · intro q full
        change (Priority.update pipeline.queues p queue q).pool.hand.isSome =
          true at full
        have before : (pipeline.queues q).pool.hand.isSome = true := by
          rw [Priority.update_apply] at full
          split at full
          · rename_i same
            subst same
            rcases ((sound q).stepped stepped).hand full with
              impossible | ⟨before, _⟩
            · cases impossible
            · exact before
          · exact full
        have inspects := tidy.bare q before
        rw [at_] at inspects
        cases inspects
      · intro q impossible
        exact absurd impossible (next_ne_drainTake (by simp) (by simp))
  | booked p at_ ring booked =>
      refine tidy.still rfl (by simp [at_, PullPoint.Inspects])
        fun q there => ?_
      simp only [foundBooked, goTo] at there
      split at there
      · cases there
      · split at there <;> cases there
  | nothing p at_ ring free last =>
      refine tidy.still rfl (by simp [at_, PullPoint.Inspects])
        fun q there => ?_
      simp only [Pipeline.nothing, goTo] at there
      split at there <;> cases there
  | load p at_ =>
      refine tidy.still rfl (by simp [at_, PullPoint.Inspects])
        fun q there => ?_
      simp only [Pipeline.load] at there
      split at there <;> cases there
  | age p aged at_ =>
      refine tidy.still rfl (by simp [at_, PullPoint.Inspects])
        fun q there => ?_
      cases aged <;> cases there
  | check at_ =>
      refine tidy.still rfl (by simp [at_, PullPoint.Inspects])
        fun q there => ?_
      simp only [wait, goTo] at there
      split at there <;> cases there
  | listening at_ =>
      refine tidy.still rfl (by simp [at_, PullPoint.Inspects])
        fun q there => ?_
      simp only [wait, goTo] at there
      split at there <;> cases there
  | drainFound p at_ ring =>
      constructor
      · intro q full
        have inspects := tidy.bare q full
        rw [at_] at inspects
        cases inspects
      · intro q there
        cases there
        exact ring
  | drainNothing p at_ ring =>
      refine tidy.still rfl (by simp [at_, PullPoint.Inspects])
        fun q there => ?_
      exact absurd there (next_ne_drainTake (by simp) (by simp))
  | _ =>
      exact tidy.still rfl (by simp [PullPoint.Inspects, *])
        fun q impossible => by cases impossible

theorem Did.tidy (did : Did pipeline action after) (tidy : Tidy pipeline)
    (sound : ∀ p, Sound p (pipeline.queues p)) : Tidy after := by
  cases did with
  | call msg qos queue bounded stepped =>
      exact tidy.push (sound _) stepped trivial rfl rfl
  | push p call queue stepped =>
      exact tidy.push (sound _) stepped trivial rfl rfl
  | expire p call queue stepped =>
      exact tidy.push (sound _) stepped trivial rfl rfl
  | cancel p call queue stepped =>
      exact tidy.push (sound _) stepped trivial rfl rfl
  | puller aged after pulls => exact pulls.tidy tidy sound
  | task task p act point queue disables stepped =>
      refine tidy.push (sound _) stepped ?_ rfl rfl
      cases disables <;> trivial
  | disable => exact ⟨tidy.bare, tidy.found⟩
  | disabled task at_ => exact ⟨tidy.bare, tidy.found⟩
  | cancelPull waits =>
      refine tidy.still rfl (fun q => ?_) fun q impossible => by
        cases impossible
      rcases waits with ⟨p, at_⟩ | at_ <;> rw [at_] <;> exact id
  | pull mode idle undrained =>
      exact tidy.still rfl (by simp [idle, PullPoint.Inspects])
        fun q impossible => by cases impossible
  | refill p slot idle held =>
      exact tidy.still rfl (by simp [idle, PullPoint.Inspects])
        fun q impossible => by cases impossible
  | drain idle undrained =>
      exact tidy.still rfl (by simp [idle, PullPoint.Inspects])
        fun q impossible => by cases impossible
  | drop idle =>
      exact tidy.still rfl (by simp [idle, PullPoint.Inspects])
        fun q impossible => by cases impossible

/-! ## What the puller may rely on -/

/-- The queues are sound and the puller is where its point says. -/
structure Ready (pipeline : Pipeline) : Prop where
  sound : ∀ p, Sound p (pipeline.queues p)
  owned : Owned pipeline
  refilling : Refilling pipeline
  scanned : Scanned pipeline
  tidy : Tidy pipeline

theorem ready_new (capacity : Nat) {batchSize : Nat}
    (small : batchSize ≤ 65535) : Ready (new capacity batchSize) where
  sound p := sound_new p capacity small
  owned := owned_new capacity batchSize
  refilling := .elsewhere fun point slot discarded impossible => by
    cases impossible
  scanned := trivial
  tidy := tidy_new capacity batchSize

theorem Ready.step (ready : Ready pipeline)
    (stepped : pipeline.step action = some after) : Ready after := by
  have did := step_did stepped
  exact
    { sound := fun p => (did.moves p).sound (ready.sound p)
      owned := did.owned ready.owned ready.sound
      refilling := did.refilling ready.sound ready.refilling
      scanned := did.scanned ready.scanned ready.sound
      tidy := did.tidy ready.tidy ready.sound }

theorem Ready.run (ready : Ready pipeline) {actions : List Action}
    (ran : run pipeline actions = some after) : Ready after :=
  Runs.invariant_of_step (fun _ _ _ ready stepped => ready.step stepped)
    ready ran

/-! ## Steps that are possible -/

/-- The booked batch can be flushed by the holder of the lock. -/
theorem flush_exists {p : Priority} {queue : Queue} {flusher : Flusher}
    (sound : Sound p queue)
    (held : queue.lock = some (.flusher flusher)) :
    ∃ later, queue.step (.flush flusher) = some later := by
  have agree := sound.agree
  rw [held] at agree
  have booked := agree.booked_eq rfl
  simp only [Queue.step, Queue.flushBy, held, if_true]
  split
  · exact ⟨_, rfl⟩
  · rename_i taken
    rw [Bool.not_eq_true, Option.isNone_eq_false_iff] at taken
    rcases Option.isSome_iff_exists.1 taken with ⟨id, isBooked⟩
    rw [isBooked] at booked
    rcases Option.isSome_iff_exists.1 booked.symm with ⟨batch, stands⟩
    have flushed : queue.stage.step .flush =
        .ok (some (queue.stage.commit batch)) := by
      simp only [Stage.step, agree.idle rfl, stands]
      rfl
    simp only [flushed, Stage.commit, List.getLast?_concat, Pool.commit,
      isBooked]
    exact ⟨_, rfl⟩

theorem release_exists {queue : Queue} {flusher : Flusher}
    (held : queue.lock = some (.flusher flusher)) :
    ∃ later, queue.step (.release flusher) = some later := by
  simp only [Queue.step, Queue.releaseBy, held, if_true]
  exact ⟨_, rfl⟩

theorem lock_exists {queue : Queue} (flusher : Flusher)
    (free : queue.lock = none) :
    ∃ later, queue.step (.lock flusher) = some later := by
  simp only [Queue.step, Queue.lockBy, free]
  exact ⟨_, rfl⟩

/-- A batch that has been found can be taken. -/
theorem take_exists {queue : Queue} (found : queue.pool.ring ≠ [])
    (bare : queue.pool.hand = none) :
    ∃ later, queue.step .take = some later := by
  rcases List.exists_cons_of_ne_nil found with ⟨slot, ring, same⟩
  simp only [Queue.step, Queue.take, Pool.take, same, bare]
  exact ⟨_, rfl⟩

/-- A batch that has been found can be collected. -/
theorem collect_exists {queue : Queue} (found : queue.pool.ring ≠ [])
    (bare : queue.pool.hand = none) :
    ∃ later, queue.step .collect = some later := by
  rcases List.exists_cons_of_ne_nil found with ⟨slot, ring, same⟩
  simp only [Queue.step, Queue.collect, Queue.take, Pool.take, same, bare,
    Queue.depart, Pool.keep]
  exact ⟨_, rfl⟩

/-- The batch in the hand can be discarded or handed out. -/
theorem decide_exists {queue : Queue} {slot : Slot} (congested : Bool)
    (hand : queue.pool.hand = some slot) :
    ∃ later, queue.step (.decide congested) = some later := by
  simp only [Queue.step, Queue.decide, Queue.depart, Pool.keep, hand]
  exact ⟨_, rfl⟩

theorem onTo_exists {p : Priority} {act : Queue.Action} {queue : Queue}
    (stepped : (pipeline.queues p).step act = some queue)
    (point : PullPoint) :
    pipeline.onTo p act point = some
      { pipeline with
        queues := Priority.update pipeline.queues p queue
        puller := { pipeline.puller with point := point } } := by
  simp only [onTo, on, stepped]
  rfl

/-- The hand is empty where nothing is inspected. -/
theorem Tidy.hand_eq (tidy : Tidy pipeline) {p : Priority}
    (away : ¬ pipeline.puller.point.Inspects p) :
    (pipeline.queues p).pool.hand = none := by
  cases full : (pipeline.queues p).pool.hand with
  | none => rfl
  | some slot => exact absurd (tidy.bare p (by rw [full]; rfl)) away

/-- The puller goes on, unless `drain` waits for a lock. -/
theorem Ready.pullStep_exists (ready : Ready pipeline) (aged : Bool)
    (here : pipeline.puller.point ≠ .idle)
    (stays : pipeline.puller.point ≠ .gone)
    (free : ∀ p, pipeline.puller.point = .drainLock p →
      (pipeline.queues p).lock = none) :
    ∃ after, pipeline.pullStep aged = some after := by
  have goes : ∀ {p : Priority} {act : Queue.Action} {point : PullPoint},
      (∃ queue, (pipeline.queues p).step act = some queue) →
        ∃ after, pipeline.onTo p act point = some after := by
    rintro p act point ⟨queue, stepped⟩
    exact ⟨_, onTo_exists stepped point⟩
  have held : ∀ {p : Priority}, pipeline.puller.point.Holds p →
      (pipeline.queues p).lock = some (.flusher .puller) :=
    fun {p} holds => (ready.owned p .puller).2 holds
  have scanned := ready.scanned
  cases at_ : pipeline.puller.point with
  | idle => exact absurd at_ here
  | gone => exact absurd at_ stays
  | test =>
      simp only [pullStep, at_]
      split <;> exact ⟨_, rfl⟩
  | take p =>
      simp only [pullStep, at_]
      rw [Scanned, at_] at scanned
      rcases scanned with ⟨slot, ring, _, first⟩
      refine goes (take_exists ?_ (ready.tidy.hand_eq ?_))
      · rw [first]
        exact List.cons_ne_nil _ _
      · rw [at_]
        exact id
  | clear p =>
      rw [Scanned, at_] at scanned
      rcases scanned with ⟨slot, _, hand⟩
      simp only [pullStep, at_, uncongest, hand]
      exact goes ⟨_, rfl⟩
  | decide p congested =>
      rw [Scanned, at_] at scanned
      rcases scanned with ⟨slot, _, hand⟩
      rcases decide_exists congested hand with ⟨queue, stepped⟩
      simp only [pullStep, at_, Pipeline.decide, hand, onTo_exists stepped]
      split <;> exact ⟨_, rfl⟩
  | refill point slot discarded =>
      simp only [pullStep, at_]
      cases point with
      | room =>
          have held := ready.refilling slot discarded (Or.inl at_)
          have room :=
            (ready.sound slot.batch.qos.priority).agree.conserved.refill_lt
              held
          have notFull : (pipeline.queues
              slot.batch.qos.priority).pool.refillFull = false := by
            rw [Pool.refillFull, beq_eq_false_iff_ne]
            exact Nat.ne_of_lt room
          simp only [refillStep, notFull]
          exact ⟨_, rfl⟩
      | put =>
          have held := ready.refilling slot discarded (Or.inr at_)
          exact goes ⟨_, Queue.step_put held⟩
      | notify =>
          simp only [refillStep]
          exact goes ⟨_, rfl⟩
  | setFlush p =>
      simp only [pullStep, at_]
      exact goes ⟨_, rfl⟩
  | tryLock p =>
      simp only [pullStep, at_]
      split
      · rename_i open_
        exact goes (lock_exists _ (Option.isNone_iff_eq_none.1 open_))
      · exact ⟨_, rfl⟩
  | flush p =>
      simp only [pullStep, at_]
      refine goes (flush_exists (ready.sound p) (held ?_))
      rw [at_]
      rfl
  | unlock p =>
      simp only [pullStep, at_]
      refine goes (release_exists (held ?_))
      rw [at_]
      rfl
  | drainLock p =>
      simp only [pullStep, at_]
      exact goes (lock_exists _ (free p at_))
  | drainFlush p =>
      simp only [pullStep, at_]
      refine goes (flush_exists (ready.sound p) (held ?_))
      rw [at_]
      trivial
  | drainLook p =>
      simp only [pullStep, at_]
      split <;> exact ⟨_, rfl⟩
  | drainTake p =>
      simp only [pullStep, at_]
      refine goes (collect_exists (ready.tidy.found p at_)
        (ready.tidy.hand_eq ?_))
      rw [at_]
      exact id
  | drainUnlock p =>
      have holds : pipeline.puller.point.Holds p := by
        rw [at_]
        exact Nat.le_refl _
      rcases release_exists (held holds) with ⟨queue, stepped⟩
      simp only [pullStep, at_, onTo_exists stepped]
      exact ⟨_, rfl⟩
  | dropRefill p =>
      simp only [pullStep, at_]
      exact goes ⟨_, rfl⟩
  | _ =>
      simp only [pullStep, at_]
      exact ⟨_, rfl⟩

end Pipeline
end Tx
end Thubo
