import Thubo.Pipeline.Scheduling

/-!
# Batches whose drop flag is set

A push of fragments that fails to get a batch sets the drop flag of the
batches it has queued.  `pull` and `try_pull` read the flag before they hand
a batch out.  `drain` does not: it takes all locks, flushes and hands out
whatever is there.  It hands out no marked batch when none is there once it
has the locks, since nobody sets a flag without a lock.
-/

namespace Thubo
namespace Tx

/-! ## A queue that is locked -/

/-- No batch that waits in the queue has its drop flag set. -/
structure Queue.Unmarked (queue : Queue) : Prop where
  ring : ∀ slot ∈ queue.pool.ring, queue.flagged slot.batch = false
  booked : ∀ batch ∈ queue.stage.booked, queue.flagged batch = false

instance (queue : Queue) : Decidable queue.Unmarked :=
  decidable_of_iff
    ((∀ slot ∈ queue.pool.ring, queue.flagged slot.batch = false) ∧
      ∀ batch ∈ queue.stage.booked, queue.flagged batch = false)
    ⟨fun both => ⟨both.1, both.2⟩, fun both => ⟨both.ring, both.booked⟩⟩

variable {queue later : Queue} {act : Queue.Action}

/-- The puller holds the lock. -/
def Queue.Locked (queue : Queue) : Prop :=
  queue.lock = some (.flusher .puller)

/-- A step of somebody else than the puller. -/
def Queue.Action.Foreign : Queue.Action → Prop
  | .call .. | .push .. | .expire _ | .cancel _ => True
  | .lock flusher | .flush flusher | .release flusher =>
      flusher ≠ .puller
  | _ => False

theorem Holding.not_locked {call : Nat} {inside : Inside}
    (holding : Holding queue call inside) : ¬ queue.Locked := by
  intro locked
  cases locked.symm.trans holding.lock

/-- While the puller holds the lock nobody else changes what is queued. -/
theorem Stepped.foreign (stepped : Stepped queue act later)
    (locked : queue.Locked) (foreign : act.Foreign) :
    later.Locked ∧ (queue.Unmarked → later.Unmarked) := by
  cases stepped with
  | call msg qos since => exact ⟨locked, fun clean => ⟨clean.1, clean.2⟩⟩
  | walk call c backoff closed next found walks =>
      exact ⟨locked, fun clean => ⟨clean.1, clean.2⟩⟩
  | congest call c backoff closed error found point =>
      exact ⟨locked, fun clean => ⟨clean.1, clean.2⟩⟩
  | enter call c backoff closed found point free idle =>
      cases locked.symm.trans free
  | overtime call c found point =>
      exact ⟨locked, fun clean => ⟨clean.1, clean.2⟩⟩
  | leave call c found point =>
      exact ⟨locked, fun clean => ⟨clean.1, clean.2⟩⟩
  | lock flusher free => cases locked.symm.trans free
  | nothing flusher held free => exact ⟨locked, id⟩
  | flush flusher batch pool held idle booked committed =>
      cases locked.symm.trans held
      exact absurd rfl foreign
  | release flusher held =>
      cases locked.symm.trans held
      exact absurd rfl foreign
  | requestFlush => cases foreign
  | take pool taken => cases foreign
  | uncongest => cases foreign
  | decide congested slot pool inspected kept => cases foreign
  | collect slot taken pool took inspected kept => cases foreign
  | put slot pool put => cases foreign
  | notifyRefill => cases foreign
  | failRefill => cases foreign
  | _ => exact absurd locked (Holding.not_locked ‹Holding queue _ _›)

/-- A flush of the puller moves the booked batch to the ring. -/
theorem Stepped.flushed
    (stepped : Stepped queue (.flush .puller) later)
    (clean : queue.Unmarked) : later.Locked ∧ later.Unmarked := by
  cases stepped with
  | nothing flusher held free => exact ⟨held, clean⟩
  | flush flusher batch pool held idle booked committed =>
      rcases Pool.commit_eq committed with ⟨id, taken, rfl⟩
      refine ⟨held, ?_, ?_⟩
      · intro slot member
        rcases List.mem_append.1 member with old | new
        · exact clean.ring slot old
        · rw [List.mem_singleton.1 new]
          exact clean.booked batch booked
      · intro other none
        cases none

/-- `drain` takes a batch that is not marked. -/
theorem Stepped.collected (stepped : Stepped queue .collect later)
    (locked : queue.Locked) (clean : queue.Unmarked) :
    later.Locked ∧ later.Unmarked ∧
      ∀ slot, later.left = queue.left ++ [⟨slot, .handedOut⟩] →
        queue.flagged slot.batch = false := by
  cases stepped with
  | collect slot taken pool took inspected kept =>
      rcases Pool.take_eq took with ⟨first, ring, free, rest⟩
      rcases Pool.keep_eq kept with ⟨again, hand, rfl⟩
      refine ⟨locked, ⟨?_, clean.booked⟩, ?_⟩
      · intro other member
        apply clean.ring
        rw [ring]
        exact List.mem_cons_of_mem _ member
      · intro other same
        have appended := List.append_cancel_left same
        cases appended
        apply clean.ring
        rw [rest] at inspected
        cases inspected
        rw [ring]
        exact List.mem_cons_self

/-- A batch is handed out by `drain`, or after its flag has been read. -/
theorem Stepped.handed (stepped : Stepped queue act later) {slot : Slot}
    (out : later.left = queue.left ++ [⟨slot, .handedOut⟩]) :
    act = .collect ∨ queue.flagged slot.batch = false := by
  rcases stepped.left with same | collects | ⟨congested, own, _, _, left⟩
  · cases List.self_eq_append_right.1 (same.symm.trans out)
  · exact Or.inl collects
  · right
    rw [left] at out
    have appended := (List.cons.inj (List.append_cancel_left out)).1
    injection appended with own_eq fate
    subst own_eq
    cases marked : queue.flagged own.batch with
    | true =>
        rw [Queue.fate, if_pos (Or.inr marked)] at fate
        cases fate
    | false => rfl

namespace Pipeline

variable {pipeline after : Pipeline} {action : Action}

/-! ## What drain has locked -/

/-- `drain` has taken the lock of the priority. -/
def Taken (p : Priority) : PullPoint → Prop
  | .drainLock q => p.toNat < q.toNat
  | .drainFlush _ | .drainLook _ | .drainTake _ => True
  | _ => False

/-- `drain` has taken all locks and has not started to release them. -/
def Emptying : PullPoint → Prop
  | .drainFlush _ | .drainLook _ | .drainTake _ => True
  | _ => False

/--
When `drain` takes its last lock, no batch that waits has its drop flag set.
-/
def Clear (pipeline : Pipeline) : Action → Prop
  | .puller _ =>
      pipeline.puller.point = .drainLock .background →
        ∀ p, (pipeline.queues p).Unmarked
  | _ => True

instance : DecidableRel Clear := fun pipeline action =>
  match action with
  | .puller _ =>
      inferInstanceAs (Decidable
        (pipeline.puller.point = .drainLock .background →
          ∀ p, (pipeline.queues p).Unmarked))
  | .call .. | .push .. | .expire .. | .cancel .. | .pull _ | .refill ..
  | .cancelPull | .drain | .drop | .disable | .task _ =>
      inferInstanceAs (Decidable True)

/-- What `drain` has locked is locked, and what it empties is not marked. -/
structure Drains (pipeline : Pipeline) : Prop where
  locked : ∀ p, Taken p pipeline.puller.point →
    (pipeline.queues p).Locked
  clean : Emptying pipeline.puller.point → ∀ p,
    (pipeline.queues p).Unmarked

theorem taken_of_emptying {point : PullPoint} (emptying : Emptying point)
    (p : Priority) : Taken p point := by
  cases point <;> first | exact emptying | cases emptying

/-- Nothing is claimed while `drain` is not running. -/
theorem drains_of_outside (outside : ∀ p, ¬ Taken p after.puller.point) :
    Drains after where
  locked p taken := absurd taken (outside p)
  clean emptying p := absurd (taken_of_emptying emptying p) (outside p)

/-- Somebody else than the puller takes a step. -/
theorem Drains.foreign (drains : Drains pipeline)
    (sound : ∀ p, Sound p (pipeline.queues p)) {p : Priority}
    {queue : Queue} {act : Queue.Action}
    (stepped : (pipeline.queues p).step act = some queue)
    (foreign : act.Foreign) (puller : after.puller = pipeline.puller)
    (queues : after.queues = Priority.update pipeline.queues p queue) :
    Drains after := by
  have moved := (sound p).stepped stepped
  constructor
  · intro q taken
    rw [puller] at taken
    rw [queues, Priority.update_apply]
    split
    · rename_i same
      subst same
      exact (moved.foreign (drains.locked _ taken) foreign).1
    · exact drains.locked q taken
  · intro emptying q
    rw [puller] at emptying
    rw [queues, Priority.update_apply]
    split
    · rename_i same
      subst same
      have held := drains.locked q (taken_of_emptying emptying q)
      exact (moved.foreign held foreign).2 (drains.clean emptying q)
    · exact drains.clean emptying q

/-- What is locked next was locked before, or is being locked. -/
theorem taken_of_next {p q : Priority}
    (taken : Taken q (next p .drainLock (.drainFlush .high)))
    (other : q ≠ p) : Taken q (.drainLock p) := by
  cases p <;> cases q <;>
    simp_all [Taken, next, Priority.lower, Priority.toNat]

/-- `drain` takes another lock. -/
theorem Drains.lock (drains : Drains pipeline) {p : Priority}
    (at_ : pipeline.puller.point = .drainLock p)
    (clear : p = .background → ∀ q, (pipeline.queues q).Unmarked)
    {queue : Queue}
    (stepped : Stepped (pipeline.queues p) (.lock .puller) queue) :
    Drains { pipeline with
      queues := Priority.update pipeline.queues p queue
      puller :=
        { pipeline.puller with
          point := next p .drainLock (.drainFlush .high) } } := by
  cases stepped with
  | lock flusher free =>
      constructor
      · intro q taken
        change Queue.Locked (Priority.update _ _ _ q)
        rw [Priority.update_apply]
        split
        · rfl
        · rename_i other
          apply drains.locked
          rw [at_]
          exact taken_of_next taken other
      · intro emptying q
        have last : p = .background := by
          cases p <;> first | rfl | cases emptying
        have unmarked := clear last q
        change Queue.Unmarked (Priority.update _ _ _ q)
        rw [Priority.update_apply]
        split
        · rename_i same
          subst same
          exact ⟨unmarked.ring, unmarked.booked⟩
        · exact unmarked

/-- `drain` moves or takes a batch of a queue that it has locked. -/
theorem Drains.empties (drains : Drains pipeline) {p : Priority}
    (emptying : Emptying pipeline.puller.point) {queue : Queue}
    (kept : queue.Locked ∧ queue.Unmarked)
    (queues : after.queues = Priority.update pipeline.queues p queue) :
    Drains after := by
  constructor
  · intro q _
    rw [queues, Priority.update_apply]
    split
    · exact kept.1
    · exact drains.locked q (taken_of_emptying emptying q)
  · intro _ q
    rw [queues, Priority.update_apply]
    split
    · exact kept.2
    · exact drains.clean emptying q

theorem not_taken_next {p q : Priority} {point : Priority → PullPoint}
    {last : PullPoint} (points : ∀ r, ¬ Taken q (point r))
    (final : ¬ Taken q last) : ¬ Taken q (next p point last) := by
  unfold next
  split
  · exact points _
  · exact final

theorem Goes.drains {p : Priority} {act : Queue.Action}
    {point : PullPoint} {queue : Queue} {aged : Bool}
    (goes : Goes pipeline p act point) (drains : Drains pipeline)
    (clear : Clear pipeline (.puller aged))
    (stepped : Stepped (pipeline.queues p) act queue) :
    Drains { pipeline with
      queues := Priority.update pipeline.queues p queue
      puller := { pipeline.puller with point := point } } := by
  cases goes with
  | drainLock p at_ =>
      refine drains.lock at_ ?_ stepped
      rintro rfl
      exact clear at_
  | drainFlush p at_ =>
      have emptying : Emptying pipeline.puller.point := by
        rw [at_]
        trivial
      exact drains.empties emptying
        (stepped.flushed (drains.clean emptying p)) rfl
  | drainTake p at_ =>
      have emptying : Emptying pipeline.puller.point := by
        rw [at_]
        trivial
      have taken := stepped.collected
        (drains.locked p (taken_of_emptying emptying p))
        (drains.clean emptying p)
      exact drains.empties emptying ⟨taken.1, taken.2.1⟩ rfl
  | notify slot discarded at_ =>
      apply drains_of_outside
      intro q taken
      cases discarded <;> cases taken
  | dropRefill p at_ =>
      exact drains_of_outside fun q => not_taken_next (fun _ => id) id
  | _ => exact drains_of_outside fun q taken => taken

theorem Pulls.drains {aged : Bool} (pulls : Pulls pipeline after)
    (drains : Drains pipeline) (clear : Clear pipeline (.puller aged))
    (sound : ∀ p, Sound p (pipeline.queues p)) : Drains after := by
  cases pulls with
  | goes p act point queue goes stepped =>
      exact goes.drains drains clear ((sound p).stepped stepped)
  | drainUnlock p queue at_ stepped =>
      exact drains_of_outside fun q => not_taken_next (fun _ => id) id
  | booked p at_ ring booked =>
      apply drains_of_outside
      intro q taken
      simp only [foundBooked, goTo] at taken
      split at taken
      · cases taken
      · split at taken <;> cases taken
  | nothing p at_ ring free last =>
      apply drains_of_outside
      intro q taken
      simp only [Pipeline.nothing, goTo] at taken
      split at taken <;> cases taken
  | load p at_ =>
      apply drains_of_outside
      intro q taken
      simp only [Pipeline.load] at taken
      split at taken <;> cases taken
  | age p aged at_ =>
      apply drains_of_outside
      intro q taken
      cases aged <;> cases taken
  | check at_ =>
      apply drains_of_outside
      intro q taken
      simp only [Pipeline.wait, goTo] at taken
      split at taken <;> cases taken
  | listening at_ =>
      apply drains_of_outside
      intro q taken
      simp only [Pipeline.wait, goTo] at taken
      split at taken <;> cases taken
  | drainFound p at_ ring =>
      have emptying : Emptying pipeline.puller.point := by
        rw [at_]
        trivial
      exact ⟨fun q _ => drains.locked q (taken_of_emptying emptying q),
        fun _ => drains.clean emptying⟩
  | drainNothing p at_ ring =>
      have emptying : Emptying pipeline.puller.point := by
        rw [at_]
        trivial
      exact ⟨fun q _ => drains.locked q (taken_of_emptying emptying q),
        fun _ => drains.clean emptying⟩
  | _ => exact drains_of_outside fun q taken => taken

theorem Did.drains (did : Did pipeline action after)
    (drains : Drains pipeline) (clear : Clear pipeline action)
    (sound : ∀ p, Sound p (pipeline.queues p)) : Drains after := by
  cases did with
  | call msg qos queue bounded stepped =>
      exact drains.foreign sound stepped trivial rfl rfl
  | push p call queue stepped =>
      exact drains.foreign sound stepped trivial rfl rfl
  | expire p call queue stepped =>
      exact drains.foreign sound stepped trivial rfl rfl
  | cancel p call queue stepped =>
      exact drains.foreign sound stepped trivial rfl rfl
  | puller aged after pulls => exact pulls.drains drains clear sound
  | drain idle undrained =>
      refine ⟨fun q taken => absurd taken ?_, fun emptying => ?_⟩
      · exact Nat.not_lt_zero _
      · cases emptying
  | disable => exact ⟨drains.locked, drains.clean⟩
  | disabled task at_ => exact ⟨drains.locked, drains.clean⟩
  | task task p act point queue disables stepped =>
      refine drains.foreign sound stepped ?_ rfl rfl
      cases disables <;> exact Flusher.noConfusion
  | _ => exact drains_of_outside fun q taken => taken

/-! ## What is handed out -/

/-- A step hands a batch out, through `pull`, `try_pull` or `drain`. -/
def HandsOut (pipeline after : Pipeline) (p : Priority) (slot : Slot) :
    Prop :=
  (after.queues p).left =
    (pipeline.queues p).left ++ [⟨slot, .handedOut⟩]

/-- No batch that the step hands out has its drop flag set. -/
def Honours (pipeline after : Pipeline) : Prop :=
  ∀ p slot, HandsOut pipeline after p slot →
    (pipeline.queues p).flagged slot.batch = false

/-- A step of a queue, which hands a batch out if it is a collection. -/
theorem honours_of_step (sound : ∀ p, Sound p (pipeline.queues p))
    {p : Priority} {act : Queue.Action} {queue : Queue}
    (stepped : (pipeline.queues p).step act = some queue)
    (queues : after.queues = Priority.update pipeline.queues p queue)
    (collects : act = .collect →
      (pipeline.queues p).Locked ∧ (pipeline.queues p).Unmarked) :
    Honours pipeline after := by
  intro q slot out
  have moved := (sound p).stepped stepped
  rw [HandsOut, queues, Priority.update_apply] at out
  split at out
  · rename_i same
    subst same
    rcases moved.handed out with rfl | unmarked
    · rcases collects rfl with ⟨locked, clean⟩
      exact (moved.collected locked clean).2.2 slot out
    · exact unmarked
  · cases List.self_eq_append_right.1 out

theorem honours_of_same (queues : after.queues = pipeline.queues) :
    Honours pipeline after := by
  intro q slot out
  rw [HandsOut, queues] at out
  cases List.self_eq_append_right.1 out

/-- A step hands out no marked batch. -/
theorem Did.honours (did : Did pipeline action after)
    (drains : Drains pipeline)
    (sound : ∀ p, Sound p (pipeline.queues p)) :
    Honours pipeline after := by
  cases did with
  | call msg qos queue bounded stepped =>
      exact honours_of_step sound stepped rfl Queue.Action.noConfusion
  | push p call queue stepped =>
      exact honours_of_step sound stepped rfl Queue.Action.noConfusion
  | expire p call queue stepped =>
      exact honours_of_step sound stepped rfl Queue.Action.noConfusion
  | cancel p call queue stepped =>
      exact honours_of_step sound stepped rfl Queue.Action.noConfusion
  | task task p act point queue disables stepped =>
      refine honours_of_step sound stepped rfl ?_
      rintro rfl
      cases disables
  | puller aged after pulls =>
      cases pulls with
      | goes p act point queue goes stepped =>
          refine honours_of_step sound stepped rfl ?_
          rintro rfl
          cases goes with
          | drainTake p at_ =>
              have emptying : Emptying pipeline.puller.point := by
                rw [at_]
                trivial
              exact ⟨drains.locked p (taken_of_emptying emptying p),
                drains.clean emptying p⟩
      | handOut p congested own queue at_ hand fate stepped =>
          exact honours_of_step sound stepped rfl Queue.Action.noConfusion
      | drainUnlock p queue at_ stepped =>
          exact honours_of_step sound stepped rfl Queue.Action.noConfusion
      | _ => exact honours_of_same rfl
  | _ => exact honours_of_same rfl

/-! ## Every run -/

theorem drains_new (capacity batchSize : Nat) :
    Drains (new capacity batchSize) :=
  drains_of_outside fun _ taken => taken

/--
In every run in which no batch that waits has its drop flag set when `drain`
takes its last lock, no step hands out a batch whose drop flag is set.
-/
theorem honours_of_run {capacity batchSize : Nat}
    (small : batchSize ≤ 65535) {actions : List Action}
    (clear : Runs.Guarded step Clear (new capacity batchSize) actions)
    (ran : run (new capacity batchSize) actions = some pipeline)
    (stepped : pipeline.step action = some after) :
    Honours pipeline after := by
  have sound := sound_of_run small ran
  have keeps : ∀ before action after,
      ((∀ p, Sound p (before.queues p)) ∧ Drains before) →
        Clear before action → step before action = some after →
          (∀ p, Sound p (after.queues p)) ∧ Drains after := by
    rintro before action after ⟨sound, drains⟩ met moved
    have did := step_did moved
    exact ⟨fun p => (did.moves p).sound (sound p),
      did.drains drains met sound⟩
  have initially : (∀ p, Sound p ((new capacity batchSize).queues p)) ∧
      Drains (new capacity batchSize) :=
    ⟨fun p => sound_new p capacity small, drains_new capacity batchSize⟩
  have drains := (Runs.invariant keeps initially clear ran).2
  exact (step_did stepped).honours drains sound

/-- A batch that is booked, and everything of `drain` until it takes it. -/
def drained : List Action :=
  .call shortMessage ⟨0⟩ :: List.replicate 12 (.push .high 0) ++ [.drain] ++
    List.replicate 9 (.puller false)

/-- A booked batch is drained. -/
theorem honours_of_run_drained :
    ∃ pipeline after : Pipeline, Honours pipeline after ∧
      pipeline.puller.point = .drainTake .high := by
  have passed : (run (new 1 100) drained).any (fun pipeline =>
      Decidable.decide (pipeline.puller.point = .drainTake .high) &&
        (pipeline.step (.puller false)).isSome) = true := by
    decide +kernel
  rcases Runs.exists_of_any passed with ⟨pipeline, ran, reached⟩
  rw [Bool.and_eq_true] at reached
  rcases Option.isSome_iff_exists.1 reached.2 with ⟨after, stepped⟩
  exact ⟨pipeline, after, honours_of_run (by decide) (by decide +kernel) ran
    stepped, of_decide_eq_true reached.1⟩

/-- A message of forty bytes. -/
def longMessage : Bytes :=
  Bytes.single (Chunk.ofBuf (List.replicate 40 7))

/--
A push fills both batches with fragments and waits in vain for a third one;
then `drain` takes the first of them.
-/
def failed : List Action :=
  .call longMessage ⟨4⟩ :: List.replicate 21 (.push .high 0) ++
    [.expire .high 0] ++ List.replicate 3 (.push .high 0) ++ [.drain] ++
    List.replicate 9 (.puller false)

/-- `drain` hands out a fragment of a message whose push has failed. -/
theorem drain_not_honours :
    ∃ pipeline after, run (new 2 20) failed = some pipeline ∧
      pipeline.step (.puller false) = some after ∧
      ¬ Honours pipeline after := by
  have passed : (run (new 2 20) failed).any (fun pipeline =>
      (pipeline.step (.puller false)).any fun after =>
        (pipeline.queues .high).pool.ring.head?.any fun slot =>
          Decidable.decide ((pipeline.queues .high).flagged slot.batch =
              true ∧
            (after.queues .high).left = (pipeline.queues .high).left ++
              [⟨slot, .handedOut⟩])) = true := by
    decide +kernel
  rcases Runs.exists_of_any passed with ⟨pipeline, ran, found⟩
  rcases (Option.any_eq_true _ _).1 found with ⟨after, stepped, taken⟩
  rcases (Option.any_eq_true _ _).1 taken with ⟨slot, _, handed⟩
  rcases of_decide_eq_true handed with ⟨marked, out⟩
  refine ⟨pipeline, after, ran, stepped, fun honours => ?_⟩
  rw [honours .high slot out] at marked
  cases marked

end Pipeline
end Tx
end Thubo
