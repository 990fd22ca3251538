import Thubo.Pipeline.Moves

/-!
# Who holds the locks of the queues

`drain` and `disable` take the four locks from the highest priority to the
lowest one, `pull` tries one lock, and every push takes the lock of its own
priority.  The program points of the puller and of the tasks say which locks
they hold, and the locks agree with them in every reachable state.
-/

namespace Thubo
namespace Tx

/-! ## Points that hold a lock -/

/-- The puller holds the lock of the priority. -/
def PullPoint.Holds (p : Priority) : PullPoint → Prop
  | .flush q | .unlock q => q = p
  | .drainLock q => p.toNat < q.toNat
  | .drainFlush _ | .drainLook _ | .drainTake _ => True
  | .drainUnlock q => q.toNat ≤ p.toNat
  | _ => False

/-- A task that disables the pipeline holds the lock of the priority. -/
def TaskPoint.Holds (p : Priority) : TaskPoint → Prop
  | .lock q => p.toNat < q.toNat
  | .flush _ => True
  | .unlock q => q.toNat ≤ p.toNat
  | .set | .done => False

/-! ## The lock of one queue -/

variable {queue later : Queue} {act : Queue.Action}

/-- The same flushers hold the lock before and after. -/
def SameFlusher (queue later : Queue) : Prop :=
  ∀ flusher, later.lock = some (.flusher flusher) ↔
    queue.lock = some (.flusher flusher)

theorem SameFlusher.of_lock (same : later.lock = queue.lock) :
    SameFlusher queue later := by
  intro flusher
  rw [same]

/-- No flusher holds the lock while a push does. -/
theorem SameFlusher.of_holding {call : Nat} {here : Inside}
    (holding : Holding queue call here)
    (unheld : ∀ flusher, later.lock ≠ some (.flusher flusher)) :
    SameFlusher queue later := by
  intro flusher
  constructor
  · intro held
    exact absurd held (unheld flusher)
  · intro held
    cases holding.lock.symm.trans held

/-- Only flushers that lock or release change who of them holds the lock. -/
theorem Stepped.flusher (stepped : Stepped queue act later)
    (locks : ∀ flusher, act ≠ .lock flusher)
    (releases : ∀ flusher, act ≠ .release flusher) :
    SameFlusher queue later := by
  cases stepped with
  | enter call c backoff closed found point free idle =>
      intro flusher
      rw [free]
      constructor <;> intro impossible <;> cases impossible
  | quiet call backoff closed here there after holding goes inner =>
      refine .of_holding holding ?_
      rw [inner]
      simp
  | allocate call backoff closed holding free dry =>
      exact .of_holding holding (by simp)
  | pop call backoff closed pool holding popped =>
      exact .of_holding holding (by simp)
  | book call backoff closed pool holding booked =>
      exact .of_holding holding (by simp)
  | commit call backoff closed flush stage batch pool holding resumed out
      free push running log committed =>
      exact .of_holding holding (by simp)
  | update call backoff closed stage batch bytes push holding resumed kept
      booked running idle log =>
      exact .of_holding holding (by simp)
  | broke call backoff closed stage batch push holding resumed kept booked
      running idle log =>
      exact .of_holding holding (by simp)
  | close call backoff stage holding abandoned =>
      exact .of_holding holding (by simp)
  | fail call backoff closed stage error flags holding abandoned flagged =>
      exact .of_holding holding (by simp)
  | unlock call backoff closed result holding =>
      exact .of_holding holding (by simp [Queue.goTo])
  | expire call holding => exact .of_holding holding (by simp)
  | cancel call stage holding abandoned =>
      exact .of_holding holding (by simp [Queue.goTo])
  | lock flusher free => exact absurd rfl (locks flusher)
  | release flusher held => exact absurd rfl (releases flusher)
  | _ => exact .of_lock rfl

namespace Pipeline

variable {pipeline after : Pipeline} {action : Action} {p : Priority}

/-! ## The locks of the pipeline -/

/-- The program point of a flusher says that it holds the lock. -/
def HoldsLock (pipeline : Pipeline) (p : Priority) : Flusher → Prop
  | .puller => pipeline.puller.point.Holds p
  | .disable task =>
      ∃ point, pipeline.tasks[task]? = some point ∧ point.Holds p

/-- The flushers that hold a lock are those whose points say so. -/
def Owned (pipeline : Pipeline) : Prop :=
  ∀ p flusher, (pipeline.queues p).lock = some (.flusher flusher) ↔
    pipeline.HoldsLock p flusher

theorem owned_new (capacity batchSize : Nat) :
    Owned (new capacity batchSize) := by
  intro p flusher
  constructor
  · intro impossible
    cases impossible
  · intro holds
    cases flusher with
    | puller => cases holds
    | disable task =>
        rcases holds with ⟨point, found, _⟩
        cases found

/-- The points of the flushers say the same after a step. -/
def SameHolders (pipeline after : Pipeline) : Prop :=
  ∀ p flusher, after.HoldsLock p flusher ↔ pipeline.HoldsLock p flusher

/-- The puller goes from one point to another and the tasks stay. -/
theorem sameHolders_of_point (tasks : after.tasks = pipeline.tasks)
    (point : ∀ p, after.puller.point.Holds p ↔
      pipeline.puller.point.Holds p) :
    SameHolders pipeline after := by
  intro p flusher
  cases flusher with
  | puller => exact point p
  | disable task => simp only [HoldsLock, tasks]

/-- The puller stays at its point. -/
theorem sameHolders_of_puller (tasks : after.tasks = pipeline.tasks)
    (puller : after.puller = pipeline.puller) :
    SameHolders pipeline after :=
  sameHolders_of_point tasks fun p => by rw [puller]

/-- No queue changes. -/
theorem Owned.still (owned : Owned pipeline)
    (queues : after.queues = pipeline.queues)
    (holders : SameHolders pipeline after) : Owned after := by
  intro p flusher
  rw [queues, holders]
  exact owned p flusher

section

variable {q : Priority} {queue : Queue} {act : Queue.Action}
variable (owned : Owned pipeline)
variable (queues : after.queues = Priority.update pipeline.queues q queue)

include owned queues

/-- A queue takes a step that is neither a lock nor a release. -/
theorem Owned.stay (sound : Sound q (pipeline.queues q))
    (stepped : (pipeline.queues q).step act = some queue)
    (locks : ∀ flusher, act ≠ .lock flusher)
    (releases : ∀ flusher, act ≠ .release flusher)
    (holders : SameHolders pipeline after) : Owned after := by
  intro p flusher
  rw [queues, holders, Priority.update_apply]
  split
  · rename_i same
    subst same
    exact ((sound.stepped stepped).flusher locks releases flusher).trans
      (owned p flusher)
  · exact owned p flusher

/-- A flusher takes a lock. -/
theorem Owned.lock {flusher : Flusher}
    (free : (pipeline.queues q).lock = none)
    (taken : queue.lock = some (.flusher flusher))
    (holders : ∀ p other, after.HoldsLock p other ↔
      pipeline.HoldsLock p other ∨ (p = q ∧ other = flusher)) :
    Owned after := by
  intro p other
  rw [queues, holders, Priority.update_apply]
  split
  · rename_i same
    subst same
    have nobody : ¬ pipeline.HoldsLock p other := by
      rw [← owned p other, free]
      intro impossible
      cases impossible
    simp only [taken, Option.some.injEq, Holder.flusher.injEq, nobody,
      false_or, true_and]
    exact eq_comm
  · rename_i apart
    simp only [apart, false_and, or_false]
    exact owned p other

/-- A flusher releases a lock. -/
theorem Owned.release {flusher : Flusher}
    (held : (pipeline.queues q).lock = some (.flusher flusher))
    (free : queue.lock = none)
    (holders : ∀ p other, after.HoldsLock p other ↔
      pipeline.HoldsLock p other ∧ ¬ (p = q ∧ other = flusher)) :
    Owned after := by
  intro p other
  rw [queues, holders, Priority.update_apply]
  split
  · rename_i same
    subst same
    simp only [free, reduceCtorEq, true_and, false_iff, not_and,
      not_not]
    intro holds
    have same := held.symm.trans ((owned p other).2 holds)
    injection same with same
    injection same with same
    exact same.symm
  · rename_i apart
    simp only [apart, false_and, not_false_iff, and_true]
    exact owned p other

end

/-! ## Steps of the puller -/

theorem holds_drainLock {p q : Priority} :
    (next q .drainLock (.drainFlush .high)).Holds p ↔
      (PullPoint.drainLock q).Holds p ∨ p = q := by
  cases p <;> cases q <;>
    simp [next, Priority.lower, PullPoint.Holds, Priority.toNat]

theorem holds_drainUnlock {p q : Priority} :
    (next q .drainUnlock .idle).Holds p ↔
      (PullPoint.drainUnlock q).Holds p ∧ ¬ p = q := by
  cases p <;> cases q <;>
    simp [next, Priority.lower, PullPoint.Holds, Priority.toNat]

/-- All locks are held while `drain` empties the rings. -/
theorem holds_next {p q : Priority} {point : Priority → PullPoint}
    {last : PullPoint} (points : ∀ r, (point r).Holds p)
    (final : last.Holds p) : (next q point last).Holds p := by
  unfold next
  split
  · exact points _
  · exact final

theorem not_holds_next {p q : Priority} {point : Priority → PullPoint}
    {last : PullPoint} (points : ∀ r, ¬ (point r).Holds p)
    (final : ¬ last.Holds p) : ¬ (next q point last).Holds p := by
  unfold next
  split
  · exact points _
  · exact final

/-- The puller takes a lock. -/
theorem holders_lock {point : PullPoint} {q : Priority}
    (tasks : after.tasks = pipeline.tasks)
    (goes : after.puller.point = point)
    (holds : ∀ p, point.Holds p ↔ pipeline.puller.point.Holds p ∨ p = q)
    (p : Priority) (other : Flusher) :
    after.HoldsLock p other ↔
      pipeline.HoldsLock p other ∨ (p = q ∧ other = .puller) := by
  cases other with
  | puller => simp only [HoldsLock, goes, holds, and_true]
  | disable task =>
      simp only [HoldsLock, tasks, reduceCtorEq, and_false, or_false]

/-- The puller releases a lock. -/
theorem holders_release {point : PullPoint} {q : Priority}
    (tasks : after.tasks = pipeline.tasks)
    (goes : after.puller.point = point)
    (holds : ∀ p, point.Holds p ↔
      pipeline.puller.point.Holds p ∧ ¬ p = q)
    (p : Priority) (other : Flusher) :
    after.HoldsLock p other ↔
      pipeline.HoldsLock p other ∧ ¬ (p = q ∧ other = .puller) := by
  cases other with
  | puller => simp only [HoldsLock, goes, holds, and_true]
  | disable task =>
      simp only [HoldsLock, tasks, reduceCtorEq, and_false,
        not_false_iff, and_true]

/-- The lock is free when it is taken, and nobody's when it is released. -/
theorem Stepped.locks {queue later : Queue} {flusher : Flusher}
    (stepped : Stepped queue (.lock flusher) later) :
    queue.lock = none ∧ later.lock = some (.flusher flusher) := by
  cases stepped with
  | lock flusher free => exact ⟨free, rfl⟩

theorem Stepped.releases {queue later : Queue} {flusher : Flusher}
    (stepped : Stepped queue (.release flusher) later) :
    queue.lock = some (.flusher flusher) ∧ later.lock = none := by
  cases stepped with
  | release flusher held => exact ⟨held, rfl⟩

theorem Goes.owned {q : Priority} {act : Queue.Action}
    {point : PullPoint} {queue : Queue}
    (goes : Goes pipeline q act point) (owned : Owned pipeline)
    (sound : Sound q (pipeline.queues q))
    (stepped : (pipeline.queues q).step act = some queue) :
    Owned { pipeline with
      queues := Priority.update pipeline.queues q queue
      puller := { pipeline.puller with point := point } } := by
  have moved := sound.stepped stepped
  -- the steps that neither take nor release a lock
  have stays : (∀ flusher, act ≠ .lock flusher) →
      (∀ flusher, act ≠ .release flusher) →
        (∀ p, point.Holds p ↔ pipeline.puller.point.Holds p) →
          Owned { pipeline with
            queues := Priority.update pipeline.queues q queue
            puller := { pipeline.puller with point := point } } :=
    fun locks releases same => owned.stay rfl sound stepped locks releases
      (sameHolders_of_point rfl same)
  cases goes with
  | lock p at_ =>
      refine owned.lock rfl (Stepped.locks moved).1
        (Stepped.locks moved).2 (holders_lock rfl rfl fun r => ?_)
      simp only [at_, PullPoint.Holds, false_or]
      exact eq_comm
  | unlock p at_ =>
      refine owned.release rfl (Stepped.releases moved).1
        (Stepped.releases moved).2 (holders_release rfl rfl fun r => ?_)
      simp only [at_, PullPoint.Holds, false_iff, not_and, not_not]
      exact eq_comm.1
  | drainLock p at_ =>
      refine owned.lock rfl (Stepped.locks moved).1
        (Stepped.locks moved).2 (holders_lock rfl rfl fun r => ?_)
      rw [at_]
      exact holds_drainLock
  | flush p at_ =>
      refine stays (by simp) (by simp) fun r => ?_
      rw [at_]
      exact Iff.rfl
  | drainFlush p at_ =>
      refine stays (by simp) (by simp) fun r => ?_
      rw [at_]
      exact iff_of_true (holds_next (fun _ => trivial) trivial) trivial
  | drainTake p at_ =>
      refine stays (by simp) (by simp) fun r => ?_
      rw [at_]
      exact Iff.rfl
  | notify slot discarded at_ =>
      refine stays (by simp) (by simp) fun r => ?_
      rw [at_]
      cases discarded <;> exact Iff.rfl
  | dropRefill p at_ =>
      refine stays (by simp) (by simp) fun r => ?_
      rw [at_]
      exact iff_of_false (not_holds_next (fun _ => id) id) id
  | _ =>
      refine stays (by simp) (by simp) fun r => ?_
      rename_i at_
      simp [PullPoint.Holds, *]

/-- Nothing is locked at the points that `pull` goes on to. -/
theorem wait_not_holds (unset : PullPoint) (away : ¬ unset.Holds p) :
    ¬ (pipeline.wait unset).puller.point.Holds p := by
  simp only [wait, goTo]
  split
  · exact id
  · exact away
  · exact id

theorem Pulls.owned (pulls : Pulls pipeline after)
    (owned : Owned pipeline)
    (sound : ∀ p, Sound p (pipeline.queues p)) : Owned after := by
  -- the steps that change no queue, between points that hold nothing
  have away : after.queues = pipeline.queues →
      after.tasks = pipeline.tasks →
        (∀ p, ¬ pipeline.puller.point.Holds p) →
          (∀ p, ¬ after.puller.point.Holds p) → Owned after :=
    fun queues tasks before later => owned.still queues
      (sameHolders_of_point tasks fun p =>
        iff_of_false (later p) (before p))
  cases pulls with
  | goes p act point queue goes stepped =>
      exact goes.owned owned (sound p) stepped
  | handOut p congested slot queue at_ hand fate stepped =>
      refine owned.stay rfl (sound p) stepped (by simp) (by simp)
        (sameHolders_of_point rfl fun r => ?_)
      rw [at_]
      exact Iff.rfl
  | drainUnlock p queue at_ stepped =>
      have moved := (sound p).stepped stepped
      refine owned.release rfl (Stepped.releases moved).1
        (Stepped.releases moved).2 (holders_release rfl rfl fun r => ?_)
      rw [at_]
      exact holds_drainUnlock
  | booked p at_ ring booked =>
      refine away rfl rfl (by simp [at_, PullPoint.Holds]) fun r => ?_
      simp only [foundBooked, goTo]
      split
      · exact id
      · split <;> exact id
  | nothing p at_ ring free last =>
      refine away rfl rfl (by simp [at_, PullPoint.Holds]) fun r => ?_
      simp only [Pipeline.nothing, goTo]
      split <;> exact id
  | load p at_ =>
      refine away rfl rfl (by simp [at_, PullPoint.Holds]) fun r => ?_
      simp only [Pipeline.load]
      split <;> exact id
  | age p aged at_ =>
      refine away rfl rfl (by simp [at_, PullPoint.Holds]) fun r => ?_
      cases aged <;> exact id
  | check at_ =>
      exact away rfl rfl (by simp [at_, PullPoint.Holds])
        fun r => wait_not_holds _ id
  | listening at_ =>
      exact away rfl rfl (by simp [at_, PullPoint.Holds])
        fun r => wait_not_holds _ id
  | drainFound p at_ ring =>
      refine owned.still rfl (sameHolders_of_point rfl fun r => ?_)
      rw [at_]
      exact Iff.rfl
  | drainNothing p at_ ring =>
      refine owned.still rfl (sameHolders_of_point rfl fun r => ?_)
      rw [at_]
      exact iff_of_true
        (holds_next (fun _ => trivial) (Nat.zero_le _)) trivial
  | _ =>
      rename_i at_
      exact away rfl rfl (by simp [PullPoint.Holds, *]) fun r => id

/-! ## Steps of the tasks -/

theorem holds_taskLock {p q : Priority} :
    (nextTask q .lock (.flush .high)).Holds p ↔
      (TaskPoint.lock q).Holds p ∨ p = q := by
  cases p <;> cases q <;>
    simp [nextTask, Priority.lower, TaskPoint.Holds, Priority.toNat]

theorem holds_taskUnlock {p q : Priority} :
    (nextTask q .unlock .done).Holds p ↔
      (TaskPoint.unlock q).Holds p ∧ ¬ p = q := by
  cases p <;> cases q <;>
    simp [nextTask, Priority.lower, TaskPoint.Holds, Priority.toNat]

theorem holds_taskFlush {p q : Priority} :
    (nextTask q .flush (.unlock .high)).Holds p := by
  cases q <;>
    simp [nextTask, Priority.lower, TaskPoint.Holds, Priority.toNat]

/-- What the points say when one task has gone on. -/
theorem holdsLock_set {task : Nat} {here : TaskPoint}
    (at_ : pipeline.tasks[task]? = some here) (there : TaskPoint)
    (puller : after.puller = pipeline.puller)
    (tasks : after.tasks = pipeline.tasks.set task there)
    (p : Priority) (other : Flusher) :
    after.HoldsLock p other ↔
      if other = .disable task then
        there.Holds p
      else
        pipeline.HoldsLock p other := by
  have bound := (List.getElem?_eq_some_iff.1 at_).1
  cases other with
  | puller => simp [HoldsLock, puller]
  | disable own =>
      simp only [HoldsLock, tasks, Flusher.disable.injEq]
      by_cases same : own = task
      · subst same
        simp [List.getElem?_set_self bound]
      · simp [List.getElem?_set_ne (Ne.symm same), same]

/-- What the point of a task says before it goes on. -/
theorem holdsLock_at {task : Nat} {here : TaskPoint}
    (at_ : pipeline.tasks[task]? = some here) (p : Priority) :
    pipeline.HoldsLock p (.disable task) ↔ here.Holds p := by
  simp [HoldsLock, at_]

theorem Disables.owned {task : Nat} {q : Priority} {act : Queue.Action}
    {point : TaskPoint} {queue : Queue}
    (disables : Disables pipeline task q act point) (owned : Owned pipeline)
    (sound : Sound q (pipeline.queues q))
    (stepped : (pipeline.queues q).step act = some queue) :
    Owned { pipeline with
      queues := Priority.update pipeline.queues q queue
      tasks := pipeline.tasks.set task point } := by
  have moved := sound.stepped stepped
  cases disables with
  | lock at_ =>
      refine owned.lock rfl (Stepped.locks moved).1
        (Stepped.locks moved).2 fun p other => ?_
      refine Iff.trans (holdsLock_set at_
        (nextTask q .lock (.flush .high)) ?_ ?_ p other) ?_
      · rfl
      · rfl
      split
      · rename_i own
        subst own
        rw [holdsLock_at at_, holds_taskLock]
        simp
      · rename_i apart
        simp [apart]
  | flush at_ =>
      refine owned.stay rfl sound stepped (by simp) (by simp)
        fun p other => ?_
      refine Iff.trans (holdsLock_set at_
        (nextTask q .flush (.unlock .high)) ?_ ?_ p other) ?_
      · rfl
      · rfl
      split
      · rename_i own
        subst own
        rw [holdsLock_at at_]
        exact iff_of_true holds_taskFlush trivial
      · exact Iff.rfl
  | unlock at_ =>
      refine owned.release rfl (Stepped.releases moved).1
        (Stepped.releases moved).2 fun p other => ?_
      refine Iff.trans (holdsLock_set at_
        (nextTask q .unlock .done) ?_ ?_ p other) ?_
      · rfl
      · rfl
      split
      · rename_i own
        subst own
        rw [holdsLock_at at_, holds_taskUnlock]
        simp
      · rename_i apart
        simp [apart]

/-! ## Every step -/

theorem Did.owned (did : Did pipeline action after)
    (owned : Owned pipeline)
    (sound : ∀ p, Sound p (pipeline.queues p)) : Owned after := by
  cases did with
  | call msg qos queue bounded stepped =>
      exact owned.stay rfl (sound _) stepped (by simp) (by simp)
        (sameHolders_of_puller rfl rfl)
  | push p call queue stepped =>
      exact owned.stay rfl (sound p) stepped (by simp) (by simp)
        (sameHolders_of_puller rfl rfl)
  | expire p call queue stepped =>
      exact owned.stay rfl (sound p) stepped (by simp) (by simp)
        (sameHolders_of_puller rfl rfl)
  | cancel p call queue stepped =>
      exact owned.stay rfl (sound p) stepped (by simp) (by simp)
        (sameHolders_of_puller rfl rfl)
  | puller aged after pulls => exact pulls.owned owned sound
  | pull mode idle undrained =>
      refine owned.still rfl (sameHolders_of_point rfl fun r => ?_)
      rw [idle]
      exact Iff.rfl
  | refill p slot idle held =>
      refine owned.still rfl (sameHolders_of_point rfl fun r => ?_)
      rw [idle]
      exact Iff.rfl
  | cancelPull waits =>
      refine owned.still rfl (sameHolders_of_point rfl fun r => ?_)
      rcases waits with ⟨p, at_⟩ | at_ <;> rw [at_] <;> exact Iff.rfl
  | drain idle undrained =>
      refine owned.still rfl (sameHolders_of_point rfl fun r => ?_)
      rw [idle]
      exact iff_of_false (Nat.not_lt_zero _) id
  | drop idle =>
      refine owned.still rfl (sameHolders_of_point rfl fun r => ?_)
      rw [idle]
      exact Iff.rfl
  | disable =>
      refine owned.still rfl fun r flusher => ?_
      cases flusher with
      | puller => exact Iff.rfl
      | disable task =>
          constructor
          · rintro ⟨point, found, holds⟩
            rcases getElem?_concat found with before | ⟨_, rfl⟩
            · exact ⟨point, before, holds⟩
            · cases holds
          · rintro ⟨point, found, holds⟩
            exact ⟨point, getElem?_later (List.prefix_append _ _) found,
              holds⟩
  | disabled task at_ =>
      refine owned.still rfl fun r flusher => ?_
      refine Iff.trans (holdsLock_set at_ (.lock .high) ?_ ?_ r flusher) ?_
      · rfl
      · rfl
      split
      · rename_i own
        subst own
        rw [holdsLock_at at_]
        exact iff_of_false (Nat.not_lt_zero _) id
      · exact Iff.rfl
  | task task p act point queue disables stepped =>
      exact disables.owned owned (sound p) stepped

end Pipeline
end Tx
end Thubo
