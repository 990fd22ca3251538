import Thubo.Pipeline.Yielder

/-!
# Why a call finds a priority booked again

A visit of a booked priority puts its batch into the ring, unless the backoff
has been cleared, the batch has grown and is young, or the lock is held.  The
batch in the ring is returned, which ends the call, or discarded.

So a call that meets these obstacles only a few times finds every priority
booked only a few times.
-/

namespace Thubo
namespace Tx

open Pipeline (Action Did Goes Pulls)

/-! ## Batches that stay in a queue -/

/-- A batch is committed or booked. -/
def Queue.Occupied (queue : Queue) : Prop :=
  queue.pool.ring ≠ [] ∨ queue.pool.booked.isSome

/-- What is committed stays so, and what is booked stays or is committed. -/
structure Queue.Keeps (queue later : Queue) : Prop where
  ring : queue.pool.ring ≠ [] → later.pool.ring ≠ []
  occupied : queue.Occupied → later.Occupied

/-- The oldest batch is taken out of the ring. -/
def Queue.Action.Takes : Queue.Action → Prop
  | .take | .collect => True
  | _ => False

variable {queue later : Queue} {act : Queue.Action}

theorem keeps_of_pool (ring : later.pool.ring = queue.pool.ring)
    (booked : later.pool.booked = queue.pool.booked) :
    queue.Keeps later where
  ring some_ := by rwa [ring]
  occupied some_ := by rwa [Queue.Occupied, ring, booked]

theorem keeps_of_commit {batch : WriteBatch}
    (committed : queue.pool.commit batch = some later.pool) :
    queue.Keeps later := by
  rcases Pool.commit_eq committed with ⟨id, booked, same⟩
  have grown : later.pool.ring ≠ [] := by
    rw [same]
    exact List.append_ne_nil_of_right_ne_nil _ (List.cons_ne_nil _ _)
  exact ⟨fun _ => grown, fun _ => Or.inl grown⟩

/-- Only the puller takes a batch out of a queue. -/
theorem Stepped.keeps (stepped : Stepped queue act later)
    (stays : ¬ act.Takes) : queue.Keeps later := by
  cases stepped with
  | take pool taken => exact absurd trivial stays
  | collect slot taken pool took inspected kept =>
      exact absurd trivial stays
  | quiet call backoff closed here there after holding goes inner =>
      rw [inner]
      exact keeps_of_pool rfl rfl
  | allocate call backoff closed holding free dry =>
      refine keeps_of_pool ?_ ?_ <;> simp only [Pool.allocate] <;> split <;>
        rfl
  | pop call backoff closed pool holding popped =>
      rcases Pool.popRefill_eq popped with ⟨slot, refill, spare, same⟩
      have ring : pool.ring = queue.pool.ring := by rw [same]
      have booked : pool.booked = queue.pool.booked := by rw [same]
      exact keeps_of_pool ring booked
  | book call backoff closed pool holding booked =>
      rcases Pool.book_eq booked with ⟨id, spare, free, rfl⟩
      exact ⟨fun some_ => some_, fun _ => Or.inr rfl⟩
  | commit call backoff closed flush stage batch pool holding resumed out
      free push running log committed => exact keeps_of_commit committed
  | flush flusher batch pool locked idle booked committed =>
      exact keeps_of_commit committed
  | decide congested slot pool inspected kept =>
      rcases Pool.keep_eq kept with ⟨slot, hand, rfl⟩
      exact keeps_of_pool rfl rfl
  | put slot pool put =>
      rcases Pool.put_eq put with ⟨held, rfl⟩
      exact keeps_of_pool rfl rfl
  | _ => exact keeps_of_pool rfl rfl

/-- A flush commits what was booked. -/
theorem Stepped.ring_of_flush {flusher : Flusher}
    (stepped : Stepped queue (.flush flusher) later)
    (occupied : queue.Occupied) : later.pool.ring ≠ [] := by
  cases stepped with
  | nothing flusher locked free =>
      rcases occupied with ring | booked
      · exact ring
      · rw [free] at booked
        cases booked
  | flush flusher batch pool locked idle booked committed =>
      rcases Pool.commit_eq committed with ⟨id, taken, rfl⟩
      exact List.append_ne_nil_of_right_ne_nil _ (List.cons_ne_nil _ _)

namespace Yielder

/-! ## Obstacles -/

/--
What keeps the call from ending although it has visited a priority: the
priority whose booked batch it leaves, or whose batch it discards.
-/
def obstacle (state : Yielder) : Action → Option Priority
  | .puller aged =>
      let pipeline := state.pipeline
      match pipeline.puller.point with
      -- the backoff has been cleared since the last visit
      | .load p =>
          if (pipeline.queues p).bytes < pipeline.puller.bookedLen p then
            some p
          else
            none
      -- the batch has grown, and is young
      | .age p => if aged then none else some p
      | .tryLock p =>
          if (pipeline.queues p).lock.isNone then none else some p
      | .decide p congested =>
          match (pipeline.queues p).pool.hand with
          | some slot =>
              if (pipeline.queues p).fate congested slot.batch =
                  .discarded then
                some p
              else
                none
          | none => none
      | _ => none
  | _ => none

/-- The counters are cleared. -/
def clears (state : Yielder) : Action → Bool
  | .pull _ => true
  | .puller _ =>
      match state.pipeline.puller.point with
      | .unsetBackoff => true
      | _ => false
  | _ => false

end Yielder

/-- A yielder with the obstacles it has met. -/
structure Watched where
  yielder : Yielder
  /-- The obstacles at each priority since the counters were cleared. -/
  obstacles : Priority → Nat

namespace Watched

def new (capacity batchSize : Nat) : Watched :=
  ⟨.new capacity batchSize, fun _ => 0⟩

/-- The obstacles after a step. -/
def meet (state : Watched) (action : Action) : Priority → Nat :=
  if state.yielder.clears action then
    fun _ => 0
  else
    match state.yielder.obstacle action with
    | some p => Priority.update state.obstacles p (state.obstacles p + 1)
    | none => state.obstacles

def step (state : Watched) (action : Action) : Option Watched :=
  match state.yielder.step action with
  | some after => some ⟨after, state.meet action⟩
  | none => none

/-- An inspection finds a priority booked after few obstacles. -/
def Unhindered (state : Watched) (action : Action) : Prop :=
  ∀ p ∈ state.yielder.found action, state.obstacles p < 31

variable {state after : Watched} {action : Action} {p : Priority}

theorem obstacles_le (lasts : ¬ state.yielder.clears action)
    (p : Priority) : state.obstacles p ≤ state.meet action p := by
  rw [meet, if_neg lasts]
  cases state.yielder.obstacle action with
  | none => exact Nat.le_refl _
  | some q =>
      dsimp only
      rw [Priority.update_apply]
      split
      · rename_i same
        rw [same]
        exact Nat.le_succ _
      · exact Nat.le_refl _

theorem meet_obstacle (lasts : ¬ state.yielder.clears action)
    (obstacle : state.yielder.obstacle action = some p) :
    state.meet action p = state.obstacles p + 1 := by
  rw [meet, if_neg lasts, obstacle]
  exact Priority.update_same ..

/-! ## Visits are paid for -/

/-- The call is visiting the priority. -/
def Visiting (p : Priority) : PullPoint → Prop
  | .setBackoff q | .yielding q | .load q | .age q | .setFlush q
  | .tryLock q | .flush q => q = p
  | _ => False

/-- A batch of the priority is being inspected. -/
def Inspecting (p : Priority) : PullPoint → Prop
  | .clear q | .decide q _ => q = p
  | _ => False

/-- A visit has not been paid for by an obstacle yet. -/
def Owing (pipeline : Pipeline) (p : Priority) : Prop :=
  Visiting p pipeline.puller.point ∨ Inspecting p pipeline.puller.point ∨
    (pipeline.queues p).pool.ring ≠ []

/-- In a call of `pull` every visit but one has met an obstacle. -/
structure Paid (pipeline : Pipeline) (visits obstacles : Priority → Nat) :
    Prop where
  most : (Yielder.due pipeline.puller.point).isSome →
    ∀ p, visits p ≤ obstacles p + 1
  settled : (Yielder.due pipeline.puller.point).isSome →
    ∀ p, ¬ Owing pipeline p → visits p ≤ obstacles p
  occupied : ∀ p, Visiting p pipeline.puller.point →
    (pipeline.queues p).Occupied

theorem due_of_visiting {point : PullPoint} (visiting : Visiting p point) :
    (Yielder.due point).isSome := by
  cases point <;> first | exact visiting.elim | rfl

/-- Nothing is being inspected during a visit. -/
theorem not_inspecting {p q : Priority} {point : PullPoint}
    (visiting : Visiting p point) : ¬ Inspecting q point := by
  cases point <;> first | exact visiting.elim | exact id

/-- Nothing is owed for a priority whose ring is found empty. -/
theorem not_owing_of_look {pipeline : Pipeline} {p q : Priority}
    (at_ : pipeline.puller.point = .look q)
    (ring : (pipeline.queues p).pool.ring = []) : ¬ Owing pipeline p := by
  rintro (visiting | inspecting | some_)
  · rw [at_] at visiting
    exact visiting
  · rw [at_] at inspecting
    exact inspecting
  · exact some_ ring

/-- Outside of a call nothing is claimed. -/
theorem paid_of_none {pipeline : Pipeline} {visits obstacles : Priority → Nat}
    (outside : Yielder.due pipeline.puller.point = none) :
    Paid pipeline visits obstacles where
  most calls := by
    rw [outside] at calls
    cases calls
  settled calls := by
    rw [outside] at calls
    cases calls
  occupied p visiting := by
    have calls := due_of_visiting visiting
    rw [outside] at calls
    cases calls

/-- The counters have just been cleared. -/
theorem paid_cleared {pipeline : Pipeline} {obstacles : Priority → Nat}
    (away : ∀ p, ¬ Visiting p pipeline.puller.point) :
    Paid pipeline (fun _ => 0) obstacles where
  most _ _ := Nat.zero_le _
  settled _ _ _ := Nat.zero_le _
  occupied p visiting := absurd visiting (away p)

/-- The visits of a state are paid for. -/
def Pays (state : Watched) : Prop :=
  Paid state.yielder.pipeline state.yielder.visits state.obstacles

/-- A step that is no visit, and that leaves what is owed or is an obstacle. -/
theorem Pays.keep (pays : state.Pays) {later : Pipeline}
    (lasts : ¬ state.yielder.clears action)
    (visits : state.yielder.visit action = state.yielder.visits)
    (calls : (Yielder.due later.puller.point).isSome →
      (Yielder.due state.yielder.pipeline.puller.point).isSome)
    (owing : ∀ p, state.yielder.obstacle action = some p ∨
      (Owing state.yielder.pipeline p → Owing later p))
    (occupied : ∀ p, Visiting p later.puller.point →
      (later.queues p).Occupied) :
    Paid later (state.yielder.visit action) (state.meet action) where
  most calling p := by
    rw [visits]
    have before := pays.most (calls calling) p
    have more := obstacles_le lasts p
    omega
  settled calling p settled := by
    rw [visits]
    rcases owing p with obstacle | stays
    · rw [meet_obstacle lasts obstacle]
      exact pays.most (calls calling) p
    · exact (pays.settled (calls calling) p fun owed =>
        settled (stays owed)).trans (obstacles_le lasts p)
  occupied := occupied

/-! ## Steps outside of the puller -/

/-- One queue has taken a step that takes nothing out of its ring. -/
theorem keeps_update {pipeline : Pipeline} {q : Priority}
    {act : Queue.Action} {queue : Queue}
    (sound : Sound q (pipeline.queues q))
    (stepped : (pipeline.queues q).step act = some queue)
    (stays : ¬ act.Takes) (p : Priority) :
    (pipeline.queues p).Keeps
      (Priority.update pipeline.queues q queue p) := by
  rw [Priority.update_apply]
  split
  · rename_i same
    rw [same]
    exact (sound.stepped stepped).keeps stays
  · exact keeps_of_pool rfl rfl

/-- The puller stays where it is, and no queue loses a batch. -/
theorem Pays.others (pays : state.Pays) {later : Pipeline}
    (lasts : ¬ state.yielder.clears action)
    (visits : state.yielder.visit action = state.yielder.visits)
    (puller : later.puller = state.yielder.pipeline.puller)
    (keeps : ∀ p,
      (state.yielder.pipeline.queues p).Keeps (later.queues p)) :
    Paid later (state.yielder.visit action) (state.meet action) := by
  refine pays.keep lasts visits ?_ (fun p => Or.inr ?_) ?_
  · rw [puller]
    exact id
  · rw [Owing, Owing, puller]
    exact Or.imp_right (Or.imp_right (keeps p).ring)
  · intro p visiting
    rw [puller] at visiting
    exact (keeps p).occupied (pays.occupied p visiting)

/-! ## Steps of the puller -/

variable {aged : Bool} {later : Pipeline}

/-- A point at which the puller neither visits nor clears the counters. -/
def Still : PullPoint → Prop
  | .look _ | .unsetBackoff => False
  | _ => True

theorem lasts_of_still {yielder : Yielder} {point : PullPoint}
    (at_ : yielder.pipeline.puller.point = point) (still : Still point) :
    ¬ yielder.clears (.puller aged) := by
  intro clears
  simp only [Yielder.clears, at_] at clears
  cases point <;> first | exact still | cases clears

theorem visit_of_still {yielder : Yielder} {point : PullPoint}
    (at_ : yielder.pipeline.puller.point = point) (still : Still point) :
    yielder.visit (.puller aged) = yielder.visits := by
  simp only [Yielder.visit, at_]
  cases point <;> first | exact absurd still id | rfl

/-- The puller goes on to a point from which it visits nothing. -/
theorem Pays.goes_away (pays : state.Pays) {point : PullPoint}
    (at_ : state.yielder.pipeline.puller.point = point)
    (still : Still point)
    (calls : (Yielder.due later.puller.point).isSome →
      (Yielder.due point).isSome)
    (away : ∀ p, ¬ Visiting p later.puller.point)
    (owing : ∀ p, state.yielder.obstacle (.puller aged) = some p ∨
      (Owing state.yielder.pipeline p → Owing later p)) :
    Paid later (state.yielder.visit (.puller aged))
      (state.meet (.puller aged)) :=
  pays.keep (lasts_of_still at_ still) (visit_of_still at_ still)
    (by rw [at_]; exact calls) owing
    fun p visiting => absurd visiting (away p)

/-- The puller goes on visiting the priority that it visits. -/
theorem Pays.goes_on (pays : state.Pays) {point : PullPoint} {p : Priority}
    (at_ : state.yielder.pipeline.puller.point = point)
    (still : Still point)
    (here : ∀ q, Visiting q point ↔ q = p)
    (there : ∀ q, Visiting q later.puller.point ↔ q = p)
    (keeps : ∀ q,
      (state.yielder.pipeline.queues q).Keeps (later.queues q)) :
    Paid later (state.yielder.visit (.puller aged))
      (state.meet (.puller aged)) := by
  refine pays.keep (lasts_of_still at_ still) (visit_of_still at_ still) ?_
    (fun q => Or.inr ?_) ?_
  · intro _
    rw [at_]
    exact due_of_visiting ((here p).2 rfl)
  · rintro (visiting | inspecting | ring)
    · rw [at_] at visiting
      exact Or.inl ((there q).2 ((here q).1 visiting))
    · rw [at_] at inspecting
      exact absurd inspecting (not_inspecting ((here p).2 rfl))
    · exact Or.inr (Or.inr ((keeps q).ring ring))
  · intro q visiting
    apply (keeps q).occupied
    apply pays.occupied q
    rw [at_]
    exact (here q).2 ((there q).1 visiting)

/-- The pipeline after a step of a queue that leads the puller to a point. -/
def went (pipeline : Pipeline) (p : Priority) (queue : Queue)
    (point : PullPoint) : Pipeline :=
  { pipeline with
    queues := Priority.update pipeline.queues p queue
    puller := { pipeline.puller with point := point } }

/-- What is owed stays when the puller goes on to a point without a visit. -/
theorem owing_of_ring {before : Pipeline} {point : PullPoint}
    (at_ : before.puller.point = point)
    (notVisiting : ∀ p, ¬ Visiting p point)
    (notInspecting : ∀ p, ¬ Inspecting p point)
    (rings : ∀ p, (before.queues p).pool.ring ≠ [] →
      (later.queues p).pool.ring ≠ []) (p : Priority) :
    Owing before p → Owing later p := by
  rintro (visiting | inspecting | ring)
  · rw [at_] at visiting
    exact absurd visiting (notVisiting p)
  · rw [at_] at inspecting
    exact absurd inspecting (notInspecting p)
  · exact Or.inr (Or.inr (rings p ring))

/-- The batch that is taken out of the ring is inspected. -/
theorem owing_of_take {before : Pipeline} {p : Priority} {queue : Queue}
    (at_ : before.puller.point = .take p) (q : Priority) :
    Owing before q → Owing (went before p queue (.clear p)) q := by
  rintro (visiting | inspecting | ring)
  · rw [at_] at visiting
    exact visiting.elim
  · rw [at_] at inspecting
    exact inspecting.elim
  · by_cases same : q = p
    · exact Or.inr (Or.inl same.symm)
    · refine Or.inr (Or.inr ?_)
      simp only [went]
      rwa [Priority.update_other _ same]

/-- The batch that is discarded is an obstacle. -/
theorem obstacle_discard {p : Priority} {congested : Bool} {slot : Slot}
    (at_ : state.yielder.pipeline.puller.point = .decide p congested)
    (hand : (state.yielder.pipeline.queues p).pool.hand = some slot)
    (fate : (state.yielder.pipeline.queues p).fate congested slot.batch =
      .discarded) :
    state.yielder.obstacle (.puller aged) = some p := by
  simp only [Yielder.obstacle, at_, hand, fate, if_true]

/-- The batch that was visited is in the ring when the lock is released. -/
theorem owing_of_flush {p : Priority} {queue : Queue} (pays : state.Pays)
    (at_ : state.yielder.pipeline.puller.point = .flush p)
    (stepped : Stepped (state.yielder.pipeline.queues p) (.flush .puller)
      queue) (q : Priority) :
    Owing state.yielder.pipeline q →
      Owing (went state.yielder.pipeline p queue (.unlock p)) q := by
  have occupied := pays.occupied p (by rw [at_]; rfl)
  have filled := stepped.ring_of_flush occupied
  intro owing
  refine Or.inr (Or.inr ?_)
  simp only [went]
  by_cases same : q = p
  · rw [same, Priority.update_same]
    exact filled
  · rw [Priority.update_other _ same]
    rcases owing with visiting | inspecting | ring
    · rw [at_] at visiting
      exact absurd visiting.symm same
    · rw [at_] at inspecting
      exact inspecting.elim
    · exact ring

theorem Pays.goes (pays : state.Pays)
    (sound : ∀ p, Sound p (state.yielder.pipeline.queues p))
    {p : Priority} {act : Queue.Action} {point : PullPoint} {queue : Queue}
    (goes : Goes state.yielder.pipeline p act point)
    (stepped : (state.yielder.pipeline.queues p).step act = some queue) :
    Paid (went state.yielder.pipeline p queue point)
      (state.yielder.visit (.puller aged))
      (state.meet (.puller aged)) := by
  have keeps : ¬ act.Takes → ∀ q,
      (state.yielder.pipeline.queues q).Keeps
        ((went state.yielder.pipeline p queue point).queues q) :=
    fun stays => keeps_update (sound p) stepped stays
  cases goes with
  | take p at_ =>
      exact pays.goes_away at_ trivial (fun _ => rfl) (fun _ => id)
        fun q => Or.inr (owing_of_take at_ q)
  | clear p slot at_ hand =>
      refine pays.goes_away at_ trivial (fun _ => rfl) (fun _ => id)
        fun q => Or.inr ?_
      rintro (visiting | inspecting | ring)
      · rw [at_] at visiting
        exact visiting.elim
      · rw [at_] at inspecting
        exact Or.inr (Or.inl inspecting)
      · exact Or.inr (Or.inr ((keeps id q).ring ring))
  | discard p congested slot at_ hand fate =>
      refine pays.goes_away at_ trivial (fun _ => rfl) (fun _ => id)
        fun q => ?_
      by_cases same : q = p
      · rw [same]
        exact Or.inl (obstacle_discard at_ hand fate)
      · refine Or.inr ?_
        rintro (visiting | inspecting | ring)
        · rw [at_] at visiting
          exact visiting.elim
        · rw [at_] at inspecting
          exact absurd inspecting.symm same
        · exact Or.inr (Or.inr ((keeps id q).ring ring))
  | setFlush p at_ =>
      exact pays.goes_on at_ trivial (fun q => eq_comm) (fun q => eq_comm)
        (keeps id)
  | lock p at_ =>
      exact pays.goes_on at_ trivial (fun q => eq_comm) (fun q => eq_comm)
        (keeps id)
  | flush p at_ =>
      exact pays.goes_away at_ trivial (fun _ => rfl) (fun _ => id)
        fun q => Or.inr
          (owing_of_flush pays at_ ((sound p).stepped stepped) q)
  | unlock p at_ =>
      exact pays.goes_away at_ trivial (fun _ => rfl) (fun _ => id)
        fun q => Or.inr (owing_of_ring at_ (fun _ => id) (fun _ => id)
          (fun r => (keeps id r).ring) q)
  | reject slot discarded at_ | put slot discarded at_ =>
      exact pays.goes_away at_ trivial id (fun _ => id)
        fun q => Or.inr (owing_of_ring at_ (fun _ => id) (fun _ => id)
          (fun r => (keeps id r).ring) q)
  | notify slot discarded at_ =>
      cases discarded with
      | false => exact paid_of_none rfl
      | true =>
          exact pays.goes_away at_ trivial (fun _ => rfl) (fun _ => id)
            fun q => Or.inr (owing_of_ring at_ (fun _ => id) (fun _ => id)
              (fun r => (keeps id r).ring) q)
  | drainLock p at_ =>
      exact paid_of_none (Yielder.due_next (fun _ => rfl) rfl)
  | drainFlush p at_ =>
      exact paid_of_none (Yielder.due_next (fun _ => rfl) rfl)
  | drainTake p at_ => exact paid_of_none rfl
  | dropRefill p at_ =>
      exact paid_of_none (Yielder.due_next (fun _ => rfl) rfl)

/-- The puller leaves a visit and meets an obstacle. -/
theorem Pays.gives_up (pays : state.Pays) {point : PullPoint} {p : Priority}
    (at_ : state.yielder.pipeline.puller.point = point)
    (still : Still point) (here : ∀ q, Visiting q point ↔ q = p)
    (goes : later.puller.point = .test)
    (queues : later.queues = state.yielder.pipeline.queues)
    (obstacle : state.yielder.obstacle (.puller aged) = some p) :
    Paid later (state.yielder.visit (.puller aged))
      (state.meet (.puller aged)) := by
  refine pays.goes_away at_ still ?_ ?_ fun q => ?_
  · intro _
    exact due_of_visiting ((here p).2 rfl)
  · intro q visiting
    rw [goes] at visiting
    exact visiting
  · by_cases same : q = p
    · rw [same]
      exact Or.inl obstacle
    · refine Or.inr ?_
      rintro (visiting | inspecting | ring)
      · rw [at_] at visiting
        exact absurd ((here q).1 visiting) same
      · rw [at_] at inspecting
        exact absurd inspecting (not_inspecting ((here p).2 rfl))
      · exact Or.inr (Or.inr (by rwa [queues]))

/-- The puller compares the length of the batch with the last one. -/
theorem Pays.load (pays : state.Pays) {p : Priority}
    (at_ : state.yielder.pipeline.puller.point = .load p) :
    Paid (state.yielder.pipeline.load p)
      (state.yielder.visit (.puller aged))
      (state.meet (.puller aged)) := by
  have stays : ∀ q, (state.yielder.pipeline.queues q).Keeps
      ((state.yielder.pipeline.load p).queues q) :=
    fun q => keeps_of_pool rfl rfl
  cases order : compare (state.yielder.pipeline.queues p).bytes
      (state.yielder.pipeline.puller.bookedLen p) with
  | lt =>
      refine pays.gives_up at_ trivial (fun q => eq_comm) ?_ rfl ?_
      · simp only [Pipeline.load, order]
      · simp only [Yielder.obstacle, at_, Nat.compare_eq_lt.1 order, if_true]
  | eq =>
      refine pays.goes_on at_ trivial (fun q => eq_comm) ?_ stays
      intro q
      simp only [Pipeline.load, order]
      exact eq_comm
  | gt =>
      refine pays.goes_on at_ trivial (fun q => eq_comm) ?_ stays
      intro q
      simp only [Pipeline.load, order]
      exact eq_comm

/-- An inspection that finds a priority booked owes nothing before. -/
theorem Pays.booked (pays : state.Pays) {p : Priority}
    (at_ : state.yielder.pipeline.puller.point = .look p)
    (ring : (state.yielder.pipeline.queues p).pool.ring = [])
    (booked : (state.yielder.pipeline.queues p).pool.booked.isSome) :
    Paid ((state.yielder.pipeline.seen p).foundBooked p)
      (state.yielder.visit (.puller aged))
      (state.meet (.puller aged)) := by
  cases mode : state.yielder.pipeline.puller.mode with
  | tryPull =>
      apply paid_of_none
      simp only [Pipeline.foundBooked, Pipeline.goTo, Pipeline.seen, mode]
      rfl
  | pull =>
      have finds : state.yielder.findsBooked p = true := by
        simp [Yielder.findsBooked, mode, ring, booked]
      have lasts : ¬ state.yielder.clears (.puller aged) := by
        simp [Yielder.clears, at_]
      have calls : (Yielder.due state.yielder.pipeline.puller.point).isSome :=
        by rw [at_]; rfl
      have there : ∀ q, Visiting q
          ((state.yielder.pipeline.seen p).foundBooked p).puller.point ↔
            q = p := by
        intro q
        simp only [Pipeline.foundBooked, Pipeline.goTo, Pipeline.seen, mode]
        split <;> exact eq_comm
      have idle := not_owing_of_look at_ ring
      have visits : ∀ q, state.yielder.visit (.puller aged) q =
          if q = p then state.yielder.visits p + 1
          else state.yielder.visits q := by
        intro q
        simp only [Yielder.visit, at_, finds, if_true,
          Priority.update_apply]
      constructor
      · intro _ q
        have more := obstacles_le lasts q
        have before := pays.most calls q
        have paid := pays.settled calls p idle
        rw [visits]
        split
        · rename_i same
          rw [same] at more ⊢
          omega
        · omega
      · intro _ q settled
        rw [visits]
        split
        · rename_i same
          exact absurd (Or.inl ((there q).2 same)) settled
        · have stays : Owing state.yielder.pipeline q →
              Owing ((state.yielder.pipeline.seen p).foundBooked p) q := by
            apply owing_of_ring at_ (fun _ => id) (fun _ => id)
            exact fun r some_ => some_
          exact (pays.settled calls q fun owing =>
            settled (stays owing)).trans (obstacles_le lasts q)
      · intro q visiting
        rw [(there q).1 visiting]
        exact Or.inr booked

/-- A step of the puller in which it does not visit. -/
theorem Pays.looks (pays : state.Pays) {p : Priority}
    (at_ : state.yielder.pipeline.puller.point = .look p)
    (silent : state.yielder.findsBooked p = false)
    (queues : later.queues = state.yielder.pipeline.queues)
    (away : ∀ q, ¬ Visiting q later.puller.point) :
    Paid later (state.yielder.visit (.puller aged))
      (state.meet (.puller aged)) := by
  refine pays.keep ?_ ?_ (fun _ => by rw [at_]; rfl) (fun q => Or.inr ?_)
    fun q visiting => absurd visiting (away q)
  · simp [Yielder.clears, at_]
  · simp only [Yielder.visit, at_, silent, Bool.false_eq_true, if_false]
  · exact owing_of_ring at_ (fun _ => id) (fun _ => id)
      (fun r some_ => by rwa [queues]) q

/-- The puller goes on without a visit, and no queue takes a step. -/
theorem Pays.passes (pays : state.Pays) {point : PullPoint}
    (at_ : state.yielder.pipeline.puller.point = point)
    (still : Still point)
    (notVisiting : ∀ p, ¬ Visiting p point)
    (notInspecting : ∀ p, ¬ Inspecting p point)
    (calls : (Yielder.due later.puller.point).isSome →
      (Yielder.due point).isSome)
    (away : ∀ p, ¬ Visiting p later.puller.point)
    (queues : later.queues = state.yielder.pipeline.queues) :
    Paid later (state.yielder.visit (.puller aged))
      (state.meet (.puller aged)) :=
  pays.goes_away at_ still calls away fun q =>
    Or.inr (owing_of_ring at_ notVisiting notInspecting
      (fun r some_ => by rwa [queues]) q)

theorem visiting_wait {pipeline : Pipeline} {unset : PullPoint}
    (away : ∀ p, ¬ Visiting p unset) (p : Priority) :
    ¬ Visiting p (pipeline.wait unset).puller.point := by
  simp only [Pipeline.wait, Pipeline.goTo]
  split
  · exact id
  · exact away p
  · exact id

theorem visiting_nothing {pipeline : Pipeline} (p : Priority) :
    ¬ Visiting p pipeline.nothing.puller.point := by
  simp only [Pipeline.nothing, Pipeline.goTo]
  split <;> exact id

/-- The comparison of the age decides whether the visit goes on. -/
theorem Pays.age (pays : state.Pays) {p : Priority}
    (at_ : state.yielder.pipeline.puller.point = .age p)
    (moved : state.yielder.pipeline.pullStep aged = some later) :
    Paid later (state.yielder.visit (.puller aged))
      (state.meet (.puller aged)) := by
  simp only [Pipeline.pullStep, at_] at moved
  cases moved
  cases aged with
  | true =>
      exact pays.goes_on at_ trivial (fun q => eq_comm) (fun q => eq_comm)
        fun q => keeps_of_pool rfl rfl
  | false =>
      refine pays.gives_up at_ trivial (fun q => eq_comm) rfl rfl ?_
      simp only [Yielder.obstacle, at_, Bool.false_eq_true, if_false]

/-- The lock that is not free is an obstacle. -/
theorem Pays.locked (pays : state.Pays) {p : Priority}
    (at_ : state.yielder.pipeline.puller.point = .tryLock p)
    (moved : state.yielder.pipeline.pullStep aged =
      some (state.yielder.pipeline.goTo .test)) :
    Paid (state.yielder.pipeline.goTo .test)
      (state.yielder.visit (.puller aged))
      (state.meet (.puller aged)) := by
  simp only [Pipeline.pullStep, at_] at moved
  split at moved
  · rcases Pipeline.onTo_eq moved with ⟨queue, stepped, same⟩
    cases congrArg (fun pipeline => pipeline.puller.point) same
  · rename_i held
    refine pays.gives_up at_ trivial (fun q => eq_comm) rfl rfl ?_
    simp only [Yielder.obstacle, at_, held, Bool.false_eq_true, if_false]

theorem Pays.pulls (pays : state.Pays)
    (sound : ∀ p, Sound p (state.yielder.pipeline.queues p))
    (moved : state.yielder.pipeline.pullStep aged = some later)
    (pulls : Pulls state.yielder.pipeline later) :
    Paid later (state.yielder.visit (.puller aged))
      (state.meet (.puller aged)) := by
  cases pulls with
  | goes p act point queue goes stepped =>
      exact pays.goes sound goes stepped
  | handOut p congested slot queue at_ hand fate stepped =>
      exact paid_of_none rfl
  | drainUnlock p queue at_ stepped =>
      exact paid_of_none (Yielder.due_next (fun _ => rfl) rfl)
  | disabled at_ disabled => exact paid_of_none rfl
  | scan at_ enabled =>
      exact pays.passes at_ trivial (fun _ => id) (fun _ => id)
        (fun _ => rfl) (fun _ => id) rfl
  | found p at_ ring =>
      exact pays.looks at_ (by simp [Yielder.findsBooked, ring]) rfl
        fun _ => id
  | booked p at_ ring booked => exact pays.booked at_ ring booked
  | lower p lower at_ ring free next =>
      exact pays.looks at_ (by simp [Yielder.findsBooked, free]) rfl
        fun _ => id
  | nothing p at_ ring free last =>
      exact pays.looks at_ (by simp [Yielder.findsBooked, free]) rfl
        visiting_nothing
  | room slot discarded at_ room =>
      exact pays.passes at_ trivial (fun _ => id) (fun _ => id) id
        (fun _ => id) rfl
  | setBackoff p at_ =>
      exact pays.goes_on at_ trivial (fun q => eq_comm) (fun q => eq_comm)
        fun q => keeps_of_pool rfl rfl
  | yielding p at_ =>
      exact pays.goes_on at_ trivial (fun q => eq_comm) (fun q => eq_comm)
        fun q => keeps_of_pool rfl rfl
  | load p at_ => exact pays.load at_
  | age p aged' at_ => exact pays.age at_ moved
  | locked p at_ => exact pays.locked at_ moved
  | unsetBackoff at_ =>
      have cleared : state.yielder.visit (.puller aged) = fun _ => 0 := by
        simp only [Yielder.visit, at_]
      rw [cleared]
      exact paid_cleared fun _ => id
  | check at_ =>
      exact pays.passes at_ trivial (fun _ => id) (fun _ => id)
        (fun _ => rfl) (visiting_wait fun _ => id) rfl
  | listening at_ =>
      exact pays.passes at_ trivial (fun _ => id) (fun _ => id)
        (fun _ => rfl) (visiting_wait fun _ => id) rfl
  | parked at_ =>
      exact pays.passes at_ trivial (fun _ => id) (fun _ => id)
        (fun _ => rfl) (fun _ => id) rfl
  | drainFound p at_ ring => exact paid_of_none rfl
  | drainNothing p at_ ring =>
      exact paid_of_none (Yielder.due_next (fun _ => rfl) rfl)
  | dropPull at_ => exact paid_of_none rfl

/-! ## Every run -/

/-- The steps of others visit nothing and meet no obstacle of the call. -/
theorem Pays.did (pays : state.Pays)
    (sound : ∀ p, Sound p (state.yielder.pipeline.queues p))
    (moved : state.yielder.pipeline.step action = some later) :
    Paid later (state.yielder.visit action) (state.meet action) := by
  have updated : ∀ {q : Priority} {act : Queue.Action} {queue : Queue},
      (state.yielder.pipeline.queues q).step act = some queue →
        ¬ act.Takes → ∀ p, (state.yielder.pipeline.queues p).Keeps
          (Priority.update state.yielder.pipeline.queues q queue p) :=
    fun stepped stays => keeps_update (sound _) stepped stays
  cases Pipeline.step_did moved with
  | puller aged later pulls => exact pays.pulls sound moved pulls
  | pull mode idle undrained => exact paid_cleared fun _ => id
  | refill p slot idle held => exact paid_of_none rfl
  | cancelPull waits => exact paid_of_none rfl
  | drain idle undrained => exact paid_of_none rfl
  | drop idle => exact paid_of_none rfl
  | call msg qos queue bounded stepped =>
      exact pays.others Bool.false_ne_true rfl rfl (updated stepped id)
  | push p call queue stepped =>
      exact pays.others Bool.false_ne_true rfl rfl (updated stepped id)
  | expire p call queue stepped =>
      exact pays.others Bool.false_ne_true rfl rfl (updated stepped id)
  | cancel p call queue stepped =>
      exact pays.others Bool.false_ne_true rfl rfl (updated stepped id)
  | disable =>
      exact pays.others Bool.false_ne_true rfl rfl fun p => keeps_of_pool rfl rfl
  | disabled task at_ =>
      exact pays.others Bool.false_ne_true rfl rfl fun p => keeps_of_pool rfl rfl
  | task task p act point queue disables stepped =>
      refine pays.others Bool.false_ne_true rfl rfl (updated stepped ?_)
      cases disables <;> exact id

/-- What every step keeps. -/
structure Kept (state : Watched) : Prop where
  sound : ∀ p, Sound p (state.yielder.pipeline.queues p)
  pays : state.Pays

theorem kept_new (capacity : Nat) {batchSize : Nat}
    (small : batchSize ≤ 65535) : Kept (new capacity batchSize) where
  sound p := sound_new p capacity small
  pays := paid_of_none rfl

/-- A step of the yielder is one with obstacles. -/
theorem Kept.step (kept : state.Kept) {next : Yielder}
    (stepped : state.yielder.step action = some next) :
    Kept ⟨next, state.meet action⟩ := by
  unfold Yielder.step at stepped
  split at stepped
  · rename_i later moved
    cases stepped
    constructor
    · intro p
      exact ((Pipeline.step_did moved).moves p).sound (kept.sound p)
    · exact kept.pays.did kept.sound moved
  · cases stepped

/-- A call that has met few obstacles has made few visits. -/
theorem Kept.few (kept : state.Kept) (unhindered : state.Unhindered action) :
    state.yielder.Few action := by
  intro p found
  have limit := unhindered p found
  cases action with
  | puller aged =>
      simp only [Yielder.found] at found
      split at found
      · rename_i q at_
        split at found
        · rename_i finds
          cases found
          simp only [Yielder.findsBooked, Bool.and_eq_true,
            List.isEmpty_iff] at finds
          have calls :
              (Yielder.due state.yielder.pipeline.puller.point).isSome := by
            rw [at_]
            rfl
          have paid := kept.pays.settled calls p
            (not_owing_of_look at_ finds.1.2)
          exact Nat.lt_of_le_of_lt paid limit
        · cases found
      · cases found
  | _ => cases found

/--
In a run in which every inspection that finds a priority booked comes after
less than 31 obstacles at that priority (a lock that was held, a batch that
had grown and was young, a backoff that had been cleared or a batch that was
discarded), no priority is found booked more than 31 times before all of them
are found empty.
-/
theorem few_of_unhindered {capacity batchSize : Nat}
    (small : batchSize ≤ 65535) {actions : List Action}
    (unhindered : Runs.Guarded step Unhindered (new capacity batchSize)
      actions) :
    Runs.Guarded Yielder.step Yielder.Few (Yielder.new capacity batchSize)
      actions := by
  have kept := kept_new capacity small
  change Runs.Guarded Yielder.step Yielder.Few
    (new capacity batchSize).yielder actions
  generalize new capacity batchSize = state at kept unhindered
  induction actions generalizing state with
  | nil => trivial
  | cons action actions hypothesis =>
      refine ⟨kept.few unhindered.1, ?_⟩
      cases stepped : state.yielder.step action with
      | none => trivial
      | some next =>
          have taken : state.step action =
              some ⟨next, state.meet action⟩ := by
            rw [step, stepped]
          exact hypothesis ⟨next, state.meet action⟩ (kept.step stepped)
            (unhindered.rest taken)

end Watched
end Tx
end Thubo
