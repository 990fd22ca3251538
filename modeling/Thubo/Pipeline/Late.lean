import Thubo.Pipeline.Progress
import Thubo.Pipeline.Standing

/-!
# Pushes after the pipeline has been closed

A push that is called after `PipelineTxOut` has been dropped learns of it
from the notification that it sends.  It sends none while the BACKOFF bit is
set, and it ends before that when it finds its priority congested or no batch
is left.  The pushes that find neither return `Closed`.
-/

namespace Thubo
namespace Tx

/-! ## Pushes of a kind -/

/-- The pushes of a kind are only at some points. -/
def Confined (kind : Since → Prop) (outside : Point → Prop)
    (within : Inside → Prop) (queue : Queue) : Prop :=
  ∀ (call : Nat) (c : Call), queue.calls[call]? = some c → kind c.since →
    outside c.point ∧
      ∀ here, queue.lock = some (.push call here) → within here

section

variable {queue after : Queue} {kind : Since → Prop}
variable {outside : Point → Prop} {within : Inside → Prop}

theorem Confined.stay (confined : Confined kind outside within queue)
    (calls : after.calls = queue.calls)
    (lock : ∀ call here, after.lock = some (.push call here) →
      queue.lock = some (.push call here)) :
    Confined kind outside within after :=
  Standing.stay confined calls lock

/-- The push that holds the lock goes on. -/
theorem Confined.inner (confined : Confined kind outside within queue)
    {call : Nat} {there : Inside} (calls : after.calls = queue.calls)
    (lock : after.lock = some (.push call there))
    (next : ∀ c, queue.calls[call]? = some c → kind c.since →
      within there) : Confined kind outside within after :=
  Standing.inner confined calls lock next

/-- A push goes on without the lock, or releases it. -/
theorem Confined.goTo (confined : Confined kind outside within queue)
    {call : Nat} {point : Point}
    (calls : after.calls = queue.calls.modify call fun c => c.at point)
    (lock : ∀ call here, after.lock = some (.push call here) →
      queue.lock = some (.push call here))
    (next : ∀ c, queue.calls[call]? = some c → kind c.since →
      outside point) : Confined kind outside within after :=
  Standing.goTo confined calls lock next

/-- A push takes the lock. -/
theorem Confined.enter (confined : Confined kind outside within queue)
    {call turn : Nat}
    (calls : after.calls = queue.calls.modify call fun c =>
      { c with point := .inside, turn := some turn })
    (lock : after.lock = some (.push call .acquire))
    (inside : outside .inside)
    (acquires : within .acquire) : Confined kind outside within after :=
  Standing.enter confined calls lock inside acquires

/-- A push is called. -/
theorem Confined.call (confined : Confined kind outside within queue)
    {msg : Bytes} {qos : QoS} {since : Since}
    (calls : after.calls = queue.calls ++ [⟨msg, qos, since, .entry, none⟩])
    (lock : after.lock = queue.lock) (entry : outside .entry)
    (holders : ∀ call here, queue.lock = some (.push call here) →
      call < queue.calls.length) :
    Confined kind outside within after :=
  Standing.call confined calls lock entry holders

end

/-! ## Pushes that learn that the puller is gone -/

def Inside.Barred : Inside → Prop
  | .wait | .fail _ => False
  | .unlock result => result = .ok true ∨ result = .error .closed
  | _ => True

def Point.Barred : Point → Prop
  | .congest _ => False
  | .done result => result = .error .closed
  | _ => True

/-- A push that was called after the puller had gone returns `Closed`. -/
abbrev Barred : Queue → Prop :=
  Confined (fun since => since.closed = true) Point.Barred Inside.Barred

/-- The push was called after the puller had gone. -/
def Queue.late (queue : Queue) (call : Nat) : Bool :=
  queue.calls[call]?.any fun c => c.since.closed

/-- What a call has returned. -/
def Point.returned : Point → Option (Except SendError Unit)
  | .done result => some result
  | _ => none

theorem Point.returned_eq {point : Point} {result : Except SendError Unit}
    (returned : point.returned = some result) : point = .done result := by
  cases point with
  | done other =>
      cases returned
      rfl
  | _ => cases returned

/--
What a push finds in its next step lets it learn that the puller is gone:
its priority is not congested, there is a batch with room for a header, and
the BACKOFF bit is clear.
-/
def Queue.learns (queue : Queue) (call : Nat) (backoff : Bool) : Bool :=
  match queue.calls[call]? with
  | none => true
  | some c =>
      match c.point with
      | .entry =>
          !(c.qos.congestionControl == .drop && queue.congested)
      | .test => !backoff
      | .inside =>
          match queue.lock with
          | some (.push _ .acquire) =>
              queue.pool.booked.isSome || !queue.pool.refill.isEmpty ||
                queue.pool.allocated < queue.pool.capacity
          | some (.push _ .serialize) => queue.stage.roomy
          | some (.push _ .test) => !backoff
          | _ => true
      | _ => true

variable {p : Priority} {queue after : Queue} {action : Queue.Action}

theorem late_of_since {call : Nat} {c : Call}
    (found : queue.calls[call]? = some c) (since : c.since.closed = true) :
    queue.late call = true := by
  rw [Queue.late, found]
  exact since

/-- What the push that holds the lock finds. -/
theorem learns_inside {call : Nat} {backoff : Bool} {here : Inside}
    (holding : Holding queue call here)
    (learns : queue.learns call backoff = true) :
    match here with
    | .acquire =>
        queue.pool.booked.isSome ∨ queue.pool.refill ≠ [] ∨
          queue.pool.allocated < queue.pool.capacity
    | .serialize => queue.stage.roomy = true
    | .test => backoff = false
    | _ => True := by
  rcases holding.point with ⟨c, found, point⟩
  simp only [Queue.learns, found, point, holding.lock] at learns
  cases here with
  | acquire =>
      simp only [Bool.or_eq_true, Bool.not_eq_true', decide_eq_true_eq,
        List.isEmpty_eq_false_iff] at learns
      rw [or_assoc] at learns
      exact learns
  | serialize => exact learns
  | test =>
      rw [Bool.not_eq_true'] at learns
      exact learns
  | _ => trivial

/-- The push that holds the lock stays where it can learn of it. -/
theorem Quiet.barred {backoff : Bool} {here there : Inside}
    (goes : Quiet queue backoff true here there) (barred : here.Barred)
    (test : here = .test → backoff = false) : there.Barred := by
  cases goes with
  | closedEnd shut idle => exact Or.inr rfl
  | untoldEnd quiet idle =>
      rw [test rfl] at quiet
      cases quiet
  | lost => exact barred
  | asleep => exact barred
  | _ => trivial

/-- What a push finds that does not hold the lock. -/
theorem learns_outside {call : Nat} {c : Call} {backoff : Bool}
    (found : queue.calls[call]? = some c)
    (learns : queue.learns call backoff = true) :
    (c.point = .entry → c.qos.congestionControl = .drop →
      queue.congested = false) ∧
        (c.point = .test → backoff = false) := by
  constructor
  · intro point control
    simp only [Queue.learns, found, point, control] at learns
    simpa using learns
  · intro point
    simp only [Queue.learns, found, point] at learns
    simpa using learns

/-- A push goes on to where it can learn of it. -/
theorem Walks.barred {backoff : Bool} {c : Call} {here there : Point}
    (walks : Walks queue backoff true c here there)
    (entry : here = .entry → c.qos.congestionControl = .drop →
      queue.congested = false)
    (test : here = .test → backoff = false) : there.Barred := by
  cases walks with
  | drop congested control =>
      rw [entry rfl control] at congested
      cases congested
  | untold quiet =>
      rw [test rfl] at quiet
      cases quiet
  | closed shut => rfl
  | _ => trivial

theorem Stepped.barred (stepped : Stepped queue action after)
    (sound : Sound p queue)
    (learns : ∀ call backoff closed, action = .push call backoff closed →
      queue.late call = true →
        queue.learns call backoff = true ∧ closed = true)
    (timely : ∀ call, action = .expire call → queue.late call = false)
    (barred : Barred queue) : Barred after := by
  -- what the push that goes on finds, when it was called late
  have finds : ∀ {call : Nat} {backoff closed : Bool} {c : Call},
      action = .push call backoff closed → queue.calls[call]? = some c →
        c.since.closed = true →
          queue.learns call backoff = true ∧ closed = true :=
    fun same found since =>
      learns _ _ _ same (late_of_since found since)
  have within : ∀ {call : Nat} {here : Inside} {c : Call},
      Holding queue call here → queue.calls[call]? = some c →
        c.since.closed = true → here.Barred :=
    fun holding found since =>
      (barred _ _ found since).2 _ holding.lock
  cases stepped with
  | call msg qos since =>
      refine barred.call rfl rfl trivial ?_
      intro call here locked
      rcases sound.logged.holder call ⟨here, locked⟩ with ⟨c, _, found, _⟩
      exact (List.getElem?_eq_some_iff.1 found).1
  | walk call c backoff closed next found walks =>
      refine barred.goTo rfl (fun _ _ locked => locked) ?_
      intro d again since
      rcases finds rfl again since with ⟨learn, rfl⟩
      rw [found] at again
      cases again
      have sees := learns_outside found learn
      exact walks.barred sees.1 sees.2
  | congest call c backoff closed error found point =>
      refine barred.goTo rfl (fun _ _ locked => locked) ?_
      intro d again since
      have before := (barred call d again since).1
      rw [found] at again
      cases again
      rw [point] at before
      cases before
  | enter call c backoff closed found point free idle =>
      exact barred.enter rfl rfl trivial trivial
  | quiet call backoff closed here there after holding goes inner =>
      refine barred.inner (by rw [inner]) (by rw [inner]) ?_
      intro c found since
      rcases finds rfl found since with ⟨learn, rfl⟩
      refine goes.barred (within holding found since) ?_
      rintro rfl
      exact learns_inside holding learn
  | allocate call backoff closed holding free dry =>
      refine barred.inner rfl rfl ?_
      intro c found since
      have learn := learns_inside holding (finds rfl found since).1
      have agree := sound.agree
      rw [holding.lock] at agree
      rw [free, dry] at learn
      have room : queue.pool.allocated < queue.pool.capacity := by
        simpa using learn
      simp only [Pool.allocate, room, agree.spare_none rfl, and_self,
        if_true]
      trivial
  | pop call backoff closed pool holding popped =>
      exact barred.inner rfl rfl fun _ _ _ => trivial
  | book call backoff closed pool holding booked =>
      exact barred.inner rfl rfl fun _ _ _ => trivial
  | commit call backoff closed flush stage batch pool holding resumed out
      free push running log committed =>
      exact barred.inner rfl rfl fun _ _ _ => trivial
  | update call backoff closed stage batch bytes push holding resumed kept
      booked running idle log =>
      exact barred.inner rfl rfl fun _ _ _ => Or.inl rfl
  | broke call backoff closed stage batch push holding resumed kept booked
      running idle log =>
      refine barred.inner rfl rfl ?_
      intro c found since
      have roomy := learns_inside holding (finds rfl found since).1
      rcases sound.traced with ⟨parts, current, traced⟩
      rcases step_wrote traced running roomy false with
        ⟨other, ran, wrote⟩
      rw [resumed] at ran
      cases ran
      exact absurd log wrote.not_failed
  | close call backoff stage holding abandoned =>
      exact barred.inner rfl rfl fun _ _ _ => Or.inr rfl
  | fail call backoff closed stage error flags holding abandoned flagged =>
      refine barred.inner rfl rfl ?_
      intro c found since
      exact (within holding found since).elim
  | unlock call backoff closed result holding =>
      refine barred.goTo rfl (fun _ _ impossible => by cases impossible) ?_
      intro c found since
      rcases within holding found since with rfl | rfl
      · trivial
      · rfl
  | overtime call c found point =>
      refine barred.goTo rfl (fun _ _ locked => locked) ?_
      intro d again since
      have late := late_of_since again since
      rw [timely call rfl] at late
      cases late
  | expire call holding =>
      refine barred.inner rfl rfl ?_
      intro c found since
      exact (within holding found since).elim
  | leave call c found point =>
      exact barred.goTo rfl (fun _ _ locked => locked) fun _ _ _ => trivial
  | cancel call stage holding abandoned =>
      exact barred.goTo rfl (fun _ _ impossible => by cases impossible)
        fun _ _ _ => trivial
  | lock flusher free =>
      exact barred.stay rfl fun _ _ impossible => by cases impossible
  | release flusher locked =>
      exact barred.stay rfl fun _ _ impossible => by cases impossible
  | _ => exact barred

/-! ## A push that learns of it ends -/

/-- A bound for the steps that a push with the lock still takes. -/
def Inside.ahead : Inside → Nat
  | .acquire => 14
  | .pop => 13
  | .start => 12
  | .room => 11
  | .book => 10
  | .serialize => 9
  | .flush => 8
  | .clear _ => 7
  | .commit _ => 6
  | .test => 5
  | .signal | .update => 4
  | .unlock _ => 3
  | .wait | .fail _ => 0

/-- A bound for the steps that a push still takes. -/
def Point.ahead (lock : Option Holder) : Point → Nat
  | .entry => 17
  | .tryLock => 16
  | .waitLock => 15
  | .inside =>
      match lock with
      | some (.push _ here) => here.ahead
      | _ => 0
  | .test => 2
  | .signal => 1
  | .congest _ | .done _ | .gone => 0

/-- The lock is free, or the push holds it. -/
def Queue.Open (queue : Queue) (call : Nat) : Prop :=
  queue.lock = none ∨ HeldBy queue.lock call

/-- A push has taken one of the steps ahead of it. -/
structure Advanced (queue : Queue) (call : Nat) (c : Call) (after : Queue) :
    Prop where
  goesOn : ∃ d, after.calls[call]? = some d ∧ d.since = c.since ∧
    d.point ≠ .gone ∧
      d.point.ahead after.lock < c.point.ahead queue.lock
  open_ : after.Open call

section

variable {call : Nat} {c : Call}

theorem Advanced.goTo (found : queue.calls[call]? = some c)
    {point : Point}
    (calls : after.calls = queue.calls.modify call fun c => c.at point)
    (open_ : after.Open call) (stays : point ≠ .gone)
    (less : point.ahead after.lock < c.point.ahead queue.lock) :
    Advanced queue call c after where
  goesOn := by
    refine ⟨c.at point, ?_, rfl, stays, less⟩
    rw [calls, getElem?_modify_of found, if_pos rfl]
  open_ := open_

theorem Advanced.inner {here there : Inside}
    (found : queue.calls[call]? = some c)
    (holding : Holding queue call here)
    (calls : after.calls = queue.calls)
    (lock : after.lock = some (.push call there))
    (less : there.ahead < here.ahead) : Advanced queue call c after where
  goesOn := by
    rcases holding.point with ⟨d, again, point⟩
    rw [found] at again
    cases again
    refine ⟨c, by rw [calls, found], rfl, ?_, ?_⟩
    · rw [point]
      intro impossible
      cases impossible
    · rw [point, lock, holding.lock]
      exact less
  open_ := Or.inr ⟨there, lock⟩

theorem Quiet.ahead_lt {backoff : Bool} {here there : Inside}
    (goes : Quiet queue backoff true here there) (barred : here.Barred)
    (test : here = .test → backoff = false) : there.ahead < here.ahead := by
  cases goes with
  | untoldMore quiet more =>
      rw [test rfl] at quiet
      cases quiet
  | untoldEnd quiet idle =>
      rw [test rfl] at quiet
      cases quiet
  | toldMore open_ more => cases open_
  | toldEnd open_ idle => cases open_
  | woken => cases barred
  | asleep => cases barred
  | lost => cases barred
  | clear flush => exact Nat.lt_succ_self 6
  | _ => decide

theorem Walks.ahead_lt {backoff : Bool} {lock : Option Holder}
    {here there : Point} (walks : Walks queue backoff true c here there) :
    there ≠ .gone ∧ there.ahead lock < here.ahead lock := by
  cases walks with
  | told open_ => cases open_
  | _ => exact ⟨by simp, by simp [Point.ahead]⟩

/-- A late push that goes on has one step less ahead of it. -/
theorem Stepped.advanced {backoff : Bool}
    (stepped : Stepped queue (.push call backoff true) after)
    (barred : Barred queue)
    (found : queue.calls[call]? = some c) (late : c.since.closed = true)
    (learns : queue.learns call backoff = true)
    (open_ : queue.Open call) : Advanced queue call c after := by
  have faced := barred call c found late
  cases stepped with
  | walk call d backoff closed next again walks =>
      rw [found] at again
      cases again
      have less : next ≠ .gone ∧
          next.ahead queue.lock < c.point.ahead queue.lock :=
        walks.ahead_lt
      exact .goTo found rfl open_ less.1 less.2
  | congest call d backoff closed error again point =>
      rw [found] at again
      cases again
      rw [point] at faced
      exact faced.1.elim
  | enter call d backoff closed again point free idle =>
      rw [found] at again
      cases again
      constructor
      · refine ⟨{ c with
          point := .inside, turn := some queue.stage.log.length },
          ?_, rfl, by simp, ?_⟩
        · rw [List.getElem?_modify_eq, found]
          rfl
        · rcases point with point | point
          · simp [point, Point.ahead, Inside.ahead]
          · simp [point, Point.ahead, Inside.ahead]
      · exact Or.inr ⟨_, rfl⟩
  | quiet call backoff closed here there after holding goes inner =>
      have less := goes.ahead_lt (faced.2 here holding.lock) (by
        rintro rfl
        exact learns_inside holding learns)
      exact .inner found holding (by rw [inner]) (by rw [inner]) less
  | allocate call backoff closed holding free dry =>
      refine .inner found holding rfl rfl ?_
      split
      · decide
      · decide
  | pop call backoff closed pool holding popped =>
      exact .inner found holding rfl rfl (by decide)
  | book call backoff closed pool holding booked =>
      exact .inner found holding rfl rfl (by decide)
  | commit call backoff closed flush stage batch pool holding resumed out
      free push running log committed =>
      exact .inner found holding rfl rfl (Nat.lt_succ_self 5)
  | update call backoff closed stage batch bytes push holding resumed kept
      booked running idle log =>
      exact .inner found holding rfl rfl (Nat.lt_succ_self 3)
  | broke call backoff closed stage batch push holding resumed kept booked
      running idle log =>
      exact .inner found holding rfl rfl (by simp [Inside.ahead])
  | close call backoff stage holding abandoned =>
      exact .inner found holding rfl rfl (Nat.lt_succ_self 3)
  | fail call backoff closed stage error flags holding abandoned flagged =>
      exact (faced.2 _ holding.lock).elim
  | unlock call backoff closed result holding =>
      rcases holding.point with ⟨d, again, point⟩
      rw [found] at again
      cases again
      refine .goTo found rfl (Or.inl rfl) ?_ ?_
      · rcases faced.2 _ holding.lock with rfl | rfl
        · simp [Queue.after]
        · simp [Queue.after]
      · rw [point, holding.lock]
        rcases faced.2 _ holding.lock with rfl | rfl
        · simp [Queue.after, Point.ahead, Inside.ahead]
        · simp [Queue.after, Point.ahead, Inside.ahead]

end

/-- The calls of a queue after a step. -/
theorem Stepped.since (stepped : Stepped queue action after) {call : Nat}
    {c : Call} (found : after.calls[call]? = some c) :
    (∃ d, queue.calls[call]? = some d ∧ d.since = c.since) ∨
      ∃ msg qos, action = .call msg qos c.since := by
  have went : ∀ {other : Nat} {change : Call → Call},
      (queue.calls.modify other change)[call]? = some c →
        (∀ c, (change c).since = c.since) →
          ∃ d, queue.calls[call]? = some d ∧ d.since = c.since := by
    intro other change found keeps
    rw [List.getElem?_modify, Option.map_eq_map, Option.map_eq_some_iff]
      at found
    rcases found with ⟨d, was, same⟩
    refine ⟨d, was, ?_⟩
    rw [← same]
    split
    · rw [keeps]
    · rfl
  cases stepped with
  | call msg qos since =>
      rcases getElem?_concat found with was | ⟨_, rfl⟩
      · exact Or.inl ⟨c, was, rfl⟩
      · exact Or.inr ⟨msg, qos, rfl⟩
  | walk other d backoff closed next again walks =>
      exact Or.inl (went found fun _ => rfl)
  | congest other d backoff closed error again point =>
      exact Or.inl (went found fun _ => rfl)
  | enter other d backoff closed again point free idle =>
      exact Or.inl (went found fun _ => rfl)
  | quiet other backoff closed here there after holding goes inner =>
      rw [inner] at found
      exact Or.inl ⟨c, found, rfl⟩
  | unlock other backoff closed result holding =>
      exact Or.inl (went found fun _ => rfl)
  | overtime other d again point =>
      exact Or.inl (went found fun _ => rfl)
  | leave other d again point =>
      exact Or.inl (went found fun _ => rfl)
  | cancel other stage holding abandoned =>
      exact Or.inl (went found fun _ => rfl)
  | _ => exact Or.inl ⟨c, found, rfl⟩

/-! ## The puller is dropped -/

/-- The puller has dropped its end of the pull event. -/
def PullPoint.leaves : PullPoint → Bool
  | .dropRefill _ | .gone => true
  | _ => false

namespace Pipeline

variable {pipeline later : Pipeline} {act : Action}

theorem next_leaves {p : Priority} {point : Priority → PullPoint}
    {last : PullPoint} (points : ∀ q, (point q).leaves = false)
    (final : last.leaves = false) :
    (next p point last).leaves = false := by
  unfold next
  split
  · exact points _
  · exact final

/-- Where the puller leaves from. -/
theorem Goes.leaves {p : Priority} {action : Queue.Action}
    {point : PullPoint} (goes : Goes pipeline p action point)
    (leaves : point.leaves = true) :
    pipeline.puller.point.leaves = true := by
  cases goes with
  | notify slot discarded at_ => cases discarded <;> cases leaves
  | drainLock p at_ =>
      rw [next_leaves (fun _ => rfl) rfl] at leaves
      cases leaves
  | drainFlush p at_ =>
      rw [next_leaves (fun _ => rfl) rfl] at leaves
      cases leaves
  | dropRefill p at_ =>
      rw [at_]
      rfl
  | _ => cases leaves

/-- The puller leaves when it has dropped its end of the pull event. -/
theorem Pulls.leaves (pulls : Pulls pipeline later)
    (leaves : later.puller.point.leaves = true) :
    pipeline.puller.point.leaves = true ∨ later.canPull.err = true := by
  cases pulls with
  | goes p action point queue goes stepped =>
      exact Or.inl (goes.leaves leaves)
  | drainUnlock p queue point stepped =>
      change (next p .drainUnlock .idle).leaves = true at leaves
      rw [next_leaves (fun _ => rfl) rfl] at leaves
      cases leaves
  | booked p point ring booked =>
      simp only [Pipeline.foundBooked, goTo] at leaves
      split at leaves
      · cases leaves
      · split at leaves <;> cases leaves
  | nothing p point ring free last =>
      simp only [Pipeline.nothing, goTo] at leaves
      split at leaves <;> cases leaves
  | load p point =>
      simp only [Pipeline.load] at leaves
      split at leaves <;> cases leaves
  | age p aged point => cases aged <;> cases leaves
  | check point =>
      simp only [Pipeline.wait, goTo] at leaves
      split at leaves <;> cases leaves
  | listening point =>
      simp only [Pipeline.wait, goTo] at leaves
      split at leaves <;> cases leaves
  | drainNothing p point ring =>
      change (next p .drainLook (.drainUnlock .high)).leaves = true
        at leaves
      rw [next_leaves (fun _ => rfl) rfl] at leaves
      cases leaves
  | dropPull point => exact Or.inr rfl
  | _ => cases leaves

/-- The loss of an end of the pull event is never undone. -/
theorem Did.err (did : Did pipeline act later)
    (err : pipeline.canPull.err = true) : later.canPull.err = true := by
  have check : pipeline.canPull.check.2.err = true := by
    unfold Event.check
    rw [if_pos err]
    exact err
  cases did with
  | push p call queue stepped =>
      dsimp only
      split
      · exact err
      · exact err
  | puller aged later pulls =>
      cases pulls with
      | check point => exact check
      | listening point => exact check
      | dropPull point => rfl
      | booked p point ring booked => exact err
      | nothing p point ring free last => exact err
      | _ => exact err
  | _ => exact err

theorem Goes.not_call {p : Priority} {action : Queue.Action}
    {point : PullPoint} (goes : Goes pipeline p action point) {msg : Bytes}
    {qos : QoS} {since : Since} : action ≠ .call msg qos since := by
  rintro rfl
  cases goes

/-- Only a new call has not been there before a step. -/
theorem Did.since (did : Did pipeline act later)
    (sound : ∀ p, Sound p (pipeline.queues p)) {p : Priority}
    {call : Nat} {c : Call}
    (found : (later.queues p).calls[call]? = some c) :
    (∃ d, (pipeline.queues p).calls[call]? = some d ∧
      d.since = c.since) ∨ c.since = pipeline.since := by
  have old : ∀ {q : Priority} {action : Queue.Action} {queue : Queue},
      (pipeline.queues q).step action = some queue →
        (∀ msg qos, action ≠ .call msg qos c.since) →
          (Priority.update pipeline.queues q queue p).calls[call]? =
            some c →
              ∃ d, (pipeline.queues p).calls[call]? = some d ∧
                d.since = c.since := by
    intro q action queue stepped other found
    rw [Priority.update_apply] at found
    split at found
    · rename_i same
      cases same
      rcases ((sound _).stepped stepped).since found with
        before | ⟨msg, qos, impossible⟩
      · exact before
      · exact absurd impossible (other msg qos)
    · exact ⟨c, found, rfl⟩
  cases did with
  | call msg qos queue bounded stepped =>
      change (Priority.update pipeline.queues _ queue p).calls[call]? =
        some c at found
      rw [Priority.update_apply] at found
      split at found
      · rename_i same
        cases same
        rcases ((sound _).stepped stepped).since found with
          before | ⟨_, _, new⟩
        · exact Or.inl before
        · injection new with _ _ since
          exact Or.inr since.symm
      · exact Or.inl ⟨c, found, rfl⟩
  | push q other queue stepped =>
      exact Or.inl (old stepped (by simp) found)
  | expire q other queue stepped =>
      exact Or.inl (old stepped (by simp) found)
  | cancel q other queue stepped =>
      exact Or.inl (old stepped (by simp) found)
  | task task q action point queue disables stepped =>
      refine Or.inl (old stepped ?_ found)
      cases disables <;> simp
  | puller aged later pulls =>
      left
      cases pulls with
      | goes q action point queue goes stepped =>
          exact old stepped (fun _ _ => goes.not_call) found
      | handOut q congested slot queue point hand fate stepped =>
          exact old stepped (by simp) found
      | drainUnlock q queue point stepped =>
          exact old stepped (by simp) found
      | _ => exact ⟨c, found, rfl⟩
  | _ => exact Or.inl ⟨c, found, rfl⟩

/-- A push that is called late is called after the loss. -/
structure Bereft (pipeline : Pipeline) : Prop where
  leaves : pipeline.puller.point.leaves = true →
    pipeline.canPull.err = true
  late : ∀ (p : Priority) (call : Nat) (c : Call),
    (pipeline.queues p).calls[call]? = some c → c.since.closed = true →
      pipeline.canPull.err = true

theorem bereft_new (capacity batchSize : Nat) :
    Bereft (new capacity batchSize) where
  leaves impossible := by
    cases impossible
  late p call c impossible := by
    cases impossible

theorem Did.bereft (did : Did pipeline act later)
    (sound : ∀ p, Sound p (pipeline.queues p))
    (bereft : Bereft pipeline) : Bereft later := by
  constructor
  · intro leaves
    have stays : pipeline.puller.point.leaves = true →
        later.canPull.err = true :=
      fun before => did.err (bereft.leaves before)
    cases did with
    | call msg qos queue bounded stepped => exact stays leaves
    | push p call queue stepped => exact stays leaves
    | expire p call queue stepped => exact stays leaves
    | cancel p call queue stepped => exact stays leaves
    | puller aged later pulls =>
        rcases pulls.leaves leaves with before | err
        · exact stays before
        · exact err
    | disable => exact stays leaves
    | disabled task point => exact stays leaves
    | task task p action point queue disables stepped =>
        exact stays leaves
    | _ => cases leaves
  · intro p call c found late
    apply did.err
    rcases did.since sound found with ⟨d, before, same⟩ | new
    · exact bereft.late p call d before (same ▸ late)
    · apply bereft.leaves
      rw [new] at late
      rw [eq_of_beq late]
      rfl

/-! ## Every run -/

/--
What a step finds lets a push that is called after the puller has gone learn
of it, and the timer of such a push does not expire.
-/
def learns (pipeline : Pipeline) : Action → Bool
  | .push p call =>
      !(pipeline.queues p).late call ||
        (pipeline.queues p).learns call pipeline.backoff
  | .expire p call => !(pipeline.queues p).late call
  | _ => true

/-- The pushes learn that the puller is gone in every step of a run. -/
abbrev Learning : Pipeline → List Action → Prop :=
  Runs.Guarded step fun pipeline action => pipeline.learns action = true

/-- What every step of such a run keeps. -/
structure Forsaken (pipeline : Pipeline) : Prop where
  sound : ∀ p, Sound p (pipeline.queues p)
  bereft : Bereft pipeline
  barred : ∀ p, Barred (pipeline.queues p)

theorem forsaken_new (capacity : Nat) {batchSize : Nat}
    (small : batchSize ≤ 65535) : Forsaken (new capacity batchSize) where
  sound p := sound_new p capacity small
  bereft := bereft_new capacity batchSize
  barred p call c impossible := by
    cases impossible

/-- The step of a queue that no late push takes. -/
theorem barred_update {q : Priority} {action : Queue.Action}
    {queue : Queue} (forsaken : Forsaken pipeline)
    (stepped : (pipeline.queues q).step action = some queue)
    (learns : ∀ call backoff closed, action = .push call backoff closed →
      (pipeline.queues q).late call = true →
        (pipeline.queues q).learns call backoff = true ∧ closed = true)
    (timely : ∀ call, action = .expire call →
      (pipeline.queues q).late call = false) (p : Priority) :
    Barred (Priority.update pipeline.queues q queue p) := by
  rw [Priority.update_apply]
  split
  · rename_i same
    have sound := forsaken.sound q
    exact (sound.stepped stepped).barred sound learns timely
      (forsaken.barred q)
  · exact forsaken.barred p

theorem Did.barred (did : Did pipeline act later)
    (forsaken : Forsaken pipeline) (learns : pipeline.learns act = true)
    (p : Priority) : Barred (later.queues p) := by
  cases did with
  | call msg qos queue bounded stepped =>
      exact barred_update forsaken stepped (by simp) (by simp) p
  | push q call queue stepped =>
      refine barred_update forsaken stepped ?_ (by simp) p
      intro other backoff closed same late
      cases same
      simp only [Pipeline.learns, late, Bool.not_true, Bool.false_or]
        at learns
      refine ⟨learns, ?_⟩
      unfold Queue.late at late
      rcases (Option.any_eq_true _ _).1 late with ⟨c, found, closed⟩
      exact forsaken.bereft.late q call c found closed
  | expire q call queue stepped =>
      refine barred_update forsaken stepped (by simp) ?_ p
      intro other same
      cases same
      simpa [Pipeline.learns] using learns
  | cancel q call queue stepped =>
      exact barred_update forsaken stepped (by simp) (by simp) p
  | task task q action point queue disables stepped =>
      refine barred_update forsaken stepped ?_ ?_ p
      · cases disables <;> simp
      · cases disables <;> simp
  | puller aged later pulls =>
      cases pulls with
      | goes q action point queue goes stepped =>
          refine barred_update forsaken stepped ?_ ?_ p
          · cases goes <;> simp
          · cases goes <;> simp
      | handOut q congested slot queue point hand fate stepped =>
          exact barred_update forsaken stepped (by simp) (by simp) p
      | drainUnlock q queue point stepped =>
          exact barred_update forsaken stepped (by simp) (by simp) p
      | _ => exact forsaken.barred p
  | _ => exact forsaken.barred p

theorem Forsaken.step (forsaken : Forsaken pipeline)
    (learns : pipeline.learns act = true)
    (stepped : pipeline.step act = some later) : Forsaken later := by
  have did := step_did stepped
  exact
    { sound := fun p => (did.moves p).sound (forsaken.sound p)
      bereft := did.bereft forsaken.sound forsaken.bereft
      barred := did.barred forsaken learns }

theorem forsaken_of_run {actions : List Action}
    (forsaken : Forsaken pipeline) (learning : Learning pipeline actions)
    (ran : run pipeline actions = some later) : Forsaken later :=
  Runs.invariant (fun _ _ _ forsaken learns stepped =>
    forsaken.step learns stepped) forsaken learning ran

/-- What a late push has returned. -/
theorem Forsaken.returned (forsaken : Forsaken pipeline) {p : Priority}
    {call : Nat} {c : Call}
    (found : (pipeline.queues p).calls[call]? = some c)
    (late : c.since.closed = true) {result : Except SendError Unit}
    (point : c.point = .done result) : result = .error .closed := by
  have barred := (forsaken.barred p call c found late).1
  rw [point] at barred
  exact barred

/-- A push steps when its queue does. -/
theorem pushStep_exists {p : Priority} {call : Nat} {queue : Queue}
    (stepped : (pipeline.queues p).step
      (.push call pipeline.backoff pipeline.canPull.err) = some queue) :
    ∃ later, pipeline.step (.push p call) = some later ∧
      later.queues p = queue := by
  simp only [step, pushStep, on, stepped]
  split
  · exact ⟨_, rfl, Priority.update_same _ _ _⟩
  · exact ⟨_, rfl, Priority.update_same _ _ _⟩

/-- A late push that can get the lock takes its next step. -/
theorem Forsaken.advances (forsaken : Forsaken pipeline) {p : Priority}
    {call : Nat} {c : Call}
    (found : (pipeline.queues p).calls[call]? = some c)
    (late : c.since.closed = true) (stays : c.point ≠ .gone)
    (goesOn : ∀ result, c.point ≠ .done result)
    (open_ : (pipeline.queues p).Open call)
    (learns : pipeline.learns (.push p call) = true) :
    ∃ later, pipeline.step (.push p call) = some later ∧
      Advanced (pipeline.queues p) call c (later.queues p) := by
  have sound := forsaken.sound p
  have err := forsaken.bereft.late p call c found late
  have learn : (pipeline.queues p).learns call pipeline.backoff = true := by
    simpa [Pipeline.learns, late_of_since found late] using learns
  have roomy : (pipeline.queues p).lock = some (.push call .serialize) →
      (pipeline.queues p).stage.roomy = true := by
    intro locked
    rcases sound.logged.holder call ⟨_, locked⟩ with
      ⟨d, _, again, inside, _⟩
    exact learns_inside ⟨locked, d, again, inside⟩ learn
  rcases sound.push_exists found roomy pipeline.backoff
      pipeline.canPull.err with
    ⟨queue, stepped⟩ | ⟨point, locked⟩ | ⟨result, done⟩ | gone
  · rcases pushStep_exists stepped with ⟨later, did, same⟩
    refine ⟨later, did, ?_⟩
    rw [same]
    rw [err] at stepped
    exact (sound.stepped stepped).advanced (forsaken.barred p) found late
      learn open_
  · rcases open_ with free | ⟨here, held⟩
    · exact absurd free locked
    · rcases sound.logged.holder call ⟨here, held⟩ with
        ⟨d, _, again, inside, _⟩
      rw [found] at again
      cases again
      rw [point] at inside
      cases inside
  · exact absurd done (goesOn result)
  · exact absurd gone stays

/-- A late push that can get the lock returns `Closed` on its own. -/
theorem Forsaken.returns {p : Priority} {call : Nat} (bound : Nat)
    (forsaken : Forsaken pipeline) {c : Call}
    (found : (pipeline.queues p).calls[call]? = some c)
    (late : c.since.closed = true) (stays : c.point ≠ .gone)
    (open_ : (pipeline.queues p).Open call)
    (ahead : c.point.ahead (pipeline.queues p).lock = bound)
    (learning : ∀ count,
      Learning pipeline (List.replicate count (.push p call))) :
    ∃ count later, count ≤ bound ∧
      run pipeline (List.replicate count (.push p call)) = some later ∧
        ∃ d, (later.queues p).calls[call]? = some d ∧
          d.point = .done (.error .closed) := by
  -- on the number of steps ahead of the push
  induction bound using Nat.strong_induction_on generalizing pipeline c with
  | _ bound hypothesis =>
    by_cases done : ∃ result, c.point = .done result
    · rcases done with ⟨result, point⟩
      cases forsaken.returned found late point
      exact ⟨0, pipeline, Nat.zero_le _, rfl, c, found, point⟩
    · have first : pipeline.learns (.push p call) = true :=
        (learning 1).1
      rcases forsaken.advances found late stays
          (fun result point => done ⟨result, point⟩) open_ first with
        ⟨middle, did, ⟨d, found', since, stays', less⟩, open'⟩
      have late' : d.since.closed = true := by
        rw [since]
        exact late
      have rest : ∀ count,
          Learning middle (List.replicate count (.push p call)) :=
        fun count => (learning (count + 1)).rest did
      rw [ahead] at less
      rcases hypothesis _ less (forsaken.step first did) found' late'
          stays' open' rfl rest with ⟨count, later, few, ran, returned⟩
      refine ⟨count + 1, later, by omega, ?_, returned⟩
      rw [List.replicate_succ, run_cons did]
      exact ran

theorem ahead_le (lock : Option Holder) (point : Point) :
    point.ahead lock ≤ 17 := by
  cases point with
  | inside =>
      cases lock with
      | none => exact Nat.zero_le _
      | some holder =>
          cases holder with
          | push call here => cases here <;> simp [Point.ahead, Inside.ahead]
          | flusher flusher => exact Nat.zero_le _
  | _ => simp [Point.ahead]

/--
A push that is called after the puller has gone, in a run in which such pushes
learn of it, returns nothing but `Closed`; and it does return when the lock is
free or its own, after at most seventeen steps.
-/
theorem closed_of_run {capacity batchSize : Nat}
    (small : batchSize ≤ 65535) {actions : List Action}
    (learning : Learning (new capacity batchSize) actions)
    (ran : run (new capacity batchSize) actions = some pipeline)
    {p : Priority} {call : Nat} {c : Call}
    (found : (pipeline.queues p).calls[call]? = some c)
    (late : c.since.closed = true) :
    (∀ result, c.point = .done result → result = .error .closed) ∧
      (c.point ≠ .gone → (pipeline.queues p).Open call →
        (∀ count,
          Learning pipeline (List.replicate count (.push p call))) →
            ∃ count later, count ≤ 17 ∧
              run pipeline (List.replicate count (.push p call)) =
                some later ∧
              ∃ d, (later.queues p).calls[call]? = some d ∧
                d.point = .done (.error .closed)) := by
  have forsaken := forsaken_of_run (forsaken_new capacity small) learning ran
  refine ⟨fun result => forsaken.returned found late, ?_⟩
  intro stays open_ alone
  rcases forsaken.returns _ found late stays open_ rfl alone with
    ⟨count, later, few, went, returned⟩
  exact ⟨count, later, few.trans (ahead_le _ _), went, returned⟩

/-- The puller is dropped, and then a push is called. -/
def droppedFirst : List Action :=
  [[Action.drop], List.replicate 5 (.puller false),
    [.call shortMessage ⟨0⟩], List.replicate 12 (.push .high 0)].flatten

/-- The push returns `Closed`. -/
theorem closed_of_run_dropped :
    ∃ (pipeline : Pipeline) (c : Call),
      (pipeline.queues .high).calls[0]? = some c ∧
        c.since.closed = true ∧ c.point = .done (.error .closed) := by
  have passed : (run (new 1 100) droppedFirst).any
      (fun pipeline => (pipeline.queues .high).calls[0]?.any fun c =>
        c.since.closed && c.point.returned.isSome) = true := by
    decide +kernel
  have learning : Learning (new 1 100) droppedFirst := by
    decide +kernel
  rcases Runs.exists_of_any passed with ⟨pipeline, ran, test⟩
  rcases (Option.any_eq_true _ _).1 test with ⟨c, found, both⟩
  rw [Bool.and_eq_true] at both
  rcases both with ⟨late, ended⟩
  have closed := (closed_of_run (by decide) learning ran found late).1
  rcases Option.isSome_iff_exists.1 ended with ⟨result, returned⟩
  have point := Point.returned_eq returned
  exact ⟨pipeline, c, found, late, by rw [point, closed result point]⟩

/--
A message waits in the booked batch.  A `pull` sets the BACKOFF bit, is
dropped, and the puller with it; then a push is called.
-/
def droppedInBackoff : List Action :=
  [[Action.call shortMessage ⟨0⟩], List.replicate 12 (.push .high 0),
    [.pull .pull], List.replicate 3 (.puller false), [.cancelPull, .drop],
    List.replicate 5 (.puller false), [.call shortMessage ⟨8⟩],
    List.replicate 8 (.push .high 1)].flatten

/-- The push commits its batch, sends no notification and returns `Ok`. -/
theorem late_push_accepted :
    ∃ (pipeline : Pipeline) (c : Call),
      run (new 1 100) droppedInBackoff = some pipeline ∧
        (pipeline.queues .high).calls[1]? = some c ∧
          c.since.closed = true ∧ c.point = .done (.ok ()) := by
  have passed : (run (new 1 100) droppedInBackoff).any
      (fun pipeline => (pipeline.queues .high).calls[1]?.any fun c =>
        c.since.closed && c.point.returned.any Except.toBool) = true := by
    decide +kernel
  rcases Runs.exists_of_any passed with ⟨pipeline, ran, test⟩
  rcases (Option.any_eq_true _ _).1 test with ⟨c, found, both⟩
  rw [Bool.and_eq_true] at both
  rcases both with ⟨late, ended⟩
  rcases (Option.any_eq_true _ _).1 ended with ⟨result, returned, accepted⟩
  refine ⟨pipeline, c, ran, found, late, ?_⟩
  rw [Point.returned_eq returned]
  cases result with
  | ok value => rfl
  | error error => cases accepted

end Pipeline

end Tx
end Thubo
