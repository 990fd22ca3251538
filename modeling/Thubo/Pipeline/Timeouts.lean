import Thubo.Lib.Runs
import Thubo.Pipeline.Sound
import Thubo.Pipeline.Standing

/-!
# When a push gives up

The queue of a priority with a clock and the two timeouts of its pushes.  A
push reads the clock when it first finds no batch, and once more before each
wait: what is left until its deadline bounds the wait, and so does the
interval of the progress checks.

The deadline is tested before a wait and not after it.  A wait that has lasted
for an interval ends the push, whatever is left until the deadline.
-/

namespace Thubo
namespace Tx
namespace Timeouts

structure PushConfig where
  /-- Timeout for pushing a whole message. -/
  timeout : Nat
  /-- Timeout for acquiring a new batch. -/
  timeoutBatch : Nat
deriving DecidableEq, Repr

/-- What a push waits for. -/
inductive Waiting where
  | lock
  | refill
deriving DecidableEq, Repr

/-- The timer of a wait. -/
structure Wait where
  /-- When it expires. -/
  wake : Nat
  /-- It bounds the wait by an interval shorter than the time left. -/
  progress : Bool
deriving DecidableEq, Repr

/-- The clock readings of a push. -/
structure Timer where
  config : PushConfig
  /-- When the push was called. -/
  began : Nat
  /-- When it first found no batch. -/
  start : Option Nat
  /-- The timer of the wait in progress, once it has been set. -/
  wait : Option Wait
  /-- When it returned. -/
  returned : Option Nat
deriving DecidableEq, Repr

/-- The time left until the deadline, if it has not passed. -/
def Timer.left (timer : Timer) (clock : Nat) : Option Nat :=
  let elapsed := clock - timer.start.getD clock
  if timer.config.timeout < elapsed then
    none
  else
    some (timer.config.timeout - elapsed)

/-- A step of the push: it may begin or end a wait, or return. -/
def Timer.settle (timer : Timer) (clock : Nat)
    (before after : Option Waiting) (returned : Bool) : Timer :=
  { timer with
    start :=
      if after = some .refill ∧ before ≠ some .refill then
        some (timer.start.getD clock)
      else
        timer.start
    wait := if after = before then timer.wait else none
    returned := if returned then some clock else timer.returned }

/-- What a push of the queue waits for. -/
def waiting (queue : Queue) (call : Nat) : Option Waiting :=
  match queue.calls[call]? with
  | some ⟨_, _, _, .waitLock, _⟩ => some .lock
  | some ⟨_, _, _, .inside, _⟩ =>
      match queue.lock with
      | some (.push holder .wait) =>
          if holder = call then some .refill else none
      | _ => none
  | _ => none

/-- A push of the queue has returned. -/
def hasReturned (queue : Queue) (call : Nat) : Bool :=
  match queue.calls[call]? with
  | some ⟨_, _, _, .done _, _⟩ => true
  | _ => false

structure Clocked where
  queue : Queue
  clock : Nat
  /-- One for each push, in the order of the calls. -/
  timers : List Timer

inductive Action where
  /-- Time passes. -/
  | tick (duration : Nat)
  /-- A push is called. -/
  | call (msg : Bytes) (qos : QoS) (since : Since) (config : PushConfig)
  /-- A push goes on. -/
  | push (call : Nat) (backoff closed : Bool)
  /-- A push sets the timer of its wait. -/
  | arm (call : Nat)
  /-- The timer of a push expires. -/
  | expire (call : Nat)
  /-- The future of a push is dropped. -/
  | cancel (call : Nat)
  /-- A step of the others. -/
  | other (action : Queue.Action)

/-- The action is not one of a push. -/
def Foreign : Queue.Action → Bool
  | .call .. | .push .. | .expire _ | .cancel _ => false
  | _ => true

namespace Clocked

def new (capacity batchSize : Nat) : Clocked :=
  ⟨.new capacity batchSize, 0, []⟩

/-- The timer of a push that waits has not been set yet. -/
def unarmed (state : Clocked) (call : Nat) : Bool :=
  (waiting state.queue call).isSome &&
    (state.timers[call]?.any fun timer => timer.wait.isNone)

/-- A push takes a step of the queue. -/
def goes (state : Clocked) (call : Nat) (action : Queue.Action) :
    Option Clocked :=
  (state.queue.step action).map fun queue =>
    { state with
      queue := queue
      timers := state.timers.modify call fun timer =>
        timer.settle state.clock (waiting state.queue call)
          (waiting queue call) (hasReturned queue call) }

/-- Set the timer of a push. -/
def set (state : Clocked) (call : Nat) (wait : Wait) : Clocked :=
  { state with
    timers := state.timers.modify call fun timer =>
      { timer with wait := some wait } }

/--
Compute how long a push waits.  Without time left it returns `Timeout` and
does not wait.
-/
def arm (state : Clocked) (call : Nat) : Option Clocked :=
  match state.timers[call]?, waiting state.queue call with
  | some timer, some waits =>
      if timer.wait.isSome then
        none
      else
        match waits with
        | .lock =>
            some (state.set call
              ⟨state.clock + timer.config.timeout, false⟩)
        | .refill =>
            match timer.left state.clock with
            | none => state.goes call (.expire call)
            | some left =>
                some (state.set call
                  ⟨state.clock + min left timer.config.timeoutBatch,
                    timer.config.timeoutBatch < left⟩)
  | _, _ => none

/-- The timer of a wait expires, not before its time. -/
def expire (state : Clocked) (call : Nat) : Option Clocked :=
  match state.timers[call]? with
  | some ⟨_, _, _, some wait, _⟩ =>
      if state.clock < wait.wake then
        none
      else
        state.goes call (.expire call)
  | _ => none

/-- One step; nothing when the action is not possible. -/
def step (state : Clocked) : Action → Option Clocked
  | .tick duration => some { state with clock := state.clock + duration }
  | .call msg qos since config =>
      (state.queue.step (.call msg qos since)).map fun queue =>
        { state with
          queue := queue
          timers := state.timers ++
            [⟨config, state.clock, none, none, none⟩] }
  | .push call backoff closed =>
      if state.unarmed call then
        none
      else
        state.goes call (.push call backoff closed)
  | .arm call => state.arm call
  | .expire call => state.expire call
  | .cancel call =>
      if state.unarmed call then
        none
      else
        state.goes call (.cancel call)
  | .other action =>
      if Foreign action then
        (state.queue.step action).map fun queue =>
          { state with queue := queue }
      else
        none

end Clocked

/-- A push at the priority with a message whose length fits a `u64`. -/
def Action.At (p : Priority) : Action → Prop
  | .call msg qos _ _ => qos.priority = p ∧ msg.len < 2 ^ 64
  | _ => True

instance (p : Priority) : DecidablePred (Action.At p) := by
  intro action
  unfold Action.At
  split <;> infer_instance

/-- No interval of the progress checks runs out. -/
def Unhurried (state : Clocked) : Action → Prop
  | .expire call =>
      match state.timers[call]? with
      | some ⟨_, _, _, some wait, _⟩ => wait.progress = false
      | _ => True
  | _ => True

instance : DecidableRel Unhurried := by
  intro state action
  unfold Unhurried
  split
  · split <;> infer_instance
  · infer_instance

/-! ## Pushes that have not timed out -/

/-- Not on the way to return `Timeout`. -/
def InTime : Inside → Prop
  | .fail error => error ≠ .timeout
  | .unlock result => result ≠ .error .timeout
  | _ => True

/-- Neither returning `Timeout` nor returned with it. -/
def PointInTime : Point → Prop
  | .congest error => error ≠ .timeout
  | .done result => result ≠ .error .timeout
  | _ => True

variable {p : Priority} {queue after : Queue} {action : Queue.Action}
variable {kind : Nat → Since → Prop}

theorem inTime_after {result : Except SendError Bool}
    (inTime : InTime (.unlock result)) : PointInTime (Queue.after result) := by
  cases result with
  | ok notify => cases notify <;> simp [Queue.after, PointInTime]
  | error error =>
      cases error with
      | timeout => exact absurd rfl inTime
      | _ => simp [Queue.after, PointInTime]

/-- Only a timer that expires makes a push time out. -/
theorem stepped_inTime (stepped : Stepped queue action after)
    (sound : Tx.Sound p queue)
    (expired : ∀ call since, action = .expire call → ¬ kind call since)
    (standing : Standing kind PointInTime InTime queue) :
    Standing kind PointInTime InTime after := by
  have within : ∀ {call : Nat} {here : Inside} {c : Call},
      Holding queue call here → queue.calls[call]? = some c →
        kind call c.since → InTime here :=
    fun holding found isKind =>
      (standing _ _ found isKind).2 _ holding.lock
  cases stepped with
  | call msg qos since =>
      refine standing.call rfl rfl trivial ?_
      intro call here locked
      rcases sound.logged.holder call ⟨here, locked⟩ with ⟨c, _, found, _⟩
      exact (List.getElem?_eq_some_iff.1 found).1
  | walk call c backoff closed next found walks =>
      refine standing.goTo rfl (fun _ _ locked => locked) ?_
      intro d again isKind
      generalize c.point = here at walks
      cases walks <;> simp [PointInTime]
  | congest call c backoff closed error found point =>
      refine standing.goTo rfl (fun _ _ locked => locked) ?_
      intro d again isKind
      have before := (standing call d again isKind).1
      rw [found] at again
      cases again
      rw [point] at before
      intro same
      cases same
      exact before rfl
  | enter call c backoff closed found point free idle =>
      exact standing.enter rfl rfl trivial trivial
  | quiet call backoff closed here there after holding goes inner =>
      refine standing.inner (by rw [inner]) (by rw [inner]) ?_
      intro c found isKind
      cases goes <;> simp [InTime]
  | allocate call backoff closed holding free dry =>
      refine standing.inner rfl rfl fun _ _ _ => ?_
      split <;> trivial
  | pop call backoff closed pool holding popped =>
      exact standing.inner rfl rfl fun _ _ _ => trivial
  | book call backoff closed pool holding booked =>
      exact standing.inner rfl rfl fun _ _ _ => trivial
  | commit call backoff closed flush stage batch pool holding resumed out
      free push running log committed =>
      exact standing.inner rfl rfl fun _ _ _ => trivial
  | update call backoff closed stage batch bytes push holding resumed kept
      booked running idle log =>
      refine standing.inner rfl rfl fun _ _ _ same => ?_
      cases same
  | broke call backoff closed stage batch push holding resumed kept booked
      running idle log =>
      refine standing.inner rfl rfl fun _ _ _ same => ?_
      cases same
  | close call backoff stage holding abandoned =>
      refine standing.inner rfl rfl fun _ _ _ same => ?_
      cases same
  | fail call backoff closed stage error flags holding abandoned flagged =>
      refine standing.inner rfl rfl ?_
      intro c found isKind same
      cases same
      exact within holding found isKind rfl
  | unlock call backoff closed result holding =>
      refine standing.goTo rfl (fun _ _ impossible => by cases impossible) ?_
      intro c found isKind
      exact inTime_after (within holding found isKind)
  | overtime call c found point =>
      refine standing.goTo rfl (fun _ _ locked => locked) ?_
      intro d again isKind
      exact absurd isKind (expired call _ rfl)
  | expire call holding =>
      refine standing.inner rfl rfl ?_
      intro c found isKind
      exact absurd isKind (expired call _ rfl)
  | leave call c found point =>
      exact standing.goTo rfl (fun _ _ locked => locked) fun _ _ _ => trivial
  | cancel call stage holding abandoned =>
      exact standing.goTo rfl (fun _ _ impossible => by cases impossible)
        fun _ _ _ => trivial
  | lock flusher free =>
      exact standing.stay rfl fun _ _ impossible => by cases impossible
  | release flusher locked =>
      exact standing.stay rfl fun _ _ impossible => by cases impossible
  | _ => exact standing

/-- A step of a push leaves the other pushes where they are. -/
theorem stepped_elsewhere (stepped : Stepped queue action after)
    {call other : Nat} (distinct : call ≠ other)
    (own : (∃ backoff closed, action = .push call backoff closed) ∨
      action = .expire call ∨ action = .cancel call) :
    after.calls[other]? = queue.calls[other]? := by
  have modified : ∀ (change : Call → Call),
      (queue.calls.modify call change)[other]? = queue.calls[other]? :=
    fun change => List.getElem?_modify_ne change _ distinct
  rcases own with ⟨backoff, closed, rfl⟩ | rfl | rfl
  · cases stepped with
    | walk | congest | enter | unlock => exact modified _
    | quiet _ _ _ here there after holding goes inner => rw [inner]
    | _ => rfl
  · cases stepped with
    | overtime => exact modified _
    | expire _ holding => rfl
  · cases stepped <;> exact modified _

/-- A step of the others leaves the pushes where they are. -/
theorem stepped_foreign (stepped : Stepped queue action after)
    (foreign : Foreign action = true) : after.calls = queue.calls := by
  cases stepped <;> first | rfl | cases foreign

theorem stepped_length (stepped : Stepped queue action after) {call : Nat}
    (own : (∃ backoff closed, action = .push call backoff closed) ∨
      action = .expire call ∨ action = .cancel call) :
    after.calls.length = queue.calls.length := by
  rcases own with ⟨backoff, closed, rfl⟩ | rfl | rfl
  · cases stepped with
    | walk | congest | enter | unlock => exact List.length_modify ..
    | quiet _ _ _ here there after holding goes inner => rw [inner]
    | _ => rfl
  · cases stepped with
    | overtime => exact List.length_modify ..
    | expire => rfl
  · cases stepped <;> exact List.length_modify ..

/-! ## Clock readings -/

/-- What holds of the clock readings of a push. -/
structure Timer.Runs (timer : Timer) (clock : Nat) : Prop where
  began_le : timer.began ≤ clock
  start : ∀ start, timer.start = some start →
    timer.began ≤ start ∧ start ≤ clock
  wait : ∀ wait, timer.wait = some wait → wait.progress = false →
    timer.began + timer.config.timeout ≤ wait.wake

variable {timer : Timer} {clock later : Nat}

theorem Timer.Runs.tick (runs : timer.Runs clock) (passed : clock ≤ later) :
    timer.Runs later where
  began_le := Nat.le_trans runs.began_le passed
  start start found :=
    ⟨(runs.start start found).1,
      Nat.le_trans (runs.start start found).2 passed⟩
  wait := runs.wait

theorem Timer.Runs.start_getD (runs : timer.Runs clock) :
    timer.began ≤ timer.start.getD clock ∧
      timer.start.getD clock ≤ clock := by
  cases start : timer.start with
  | none => exact ⟨runs.began_le, Nat.le_refl _⟩
  | some start' => exact runs.start start' start

theorem Timer.Runs.settle (runs : timer.Runs clock)
    (before after : Option Waiting) (returned : Bool) :
    (timer.settle clock before after returned).Runs clock where
  began_le := runs.began_le
  start start found := by
    simp only [Timer.settle] at found
    split at found
    · cases found
      exact runs.start_getD
    · exact runs.start start found
  wait wait found := by
    simp only [Timer.settle] at found
    split at found
    · exact runs.wait wait found
    · cases found

/-- Without time left, the deadline has passed. -/
theorem Timer.Runs.left_none (runs : timer.Runs clock)
    (none_ : timer.left clock = none) :
    timer.began + timer.config.timeout ≤ clock := by
  have start := runs.start_getD
  unfold Timer.left at none_
  dsimp only at none_
  split at none_
  · omega
  · cases none_

/-- The deadline is not after the time left. -/
theorem Timer.Runs.left_some (runs : timer.Runs clock) {left : Nat}
    (some_ : timer.left clock = some left) :
    timer.began + timer.config.timeout ≤ clock + left := by
  have start := runs.start_getD
  unfold Timer.left at some_
  dsimp only at some_
  split at some_
  · cases some_
  · cases some_
    omega

/-! ## Runs -/

/-- The deadline of a push has not passed yet. -/
def Clocked.Early (state : Clocked) (call : Nat) (_ : Since) : Prop :=
  ∃ timer, state.timers[call]? = some timer ∧
    state.clock < timer.began + timer.config.timeout

/-- What holds in every state of a run. -/
structure Sound (p : Priority) (state : Clocked) : Prop where
  queue : Tx.Sound p state.queue
  length : state.timers.length = state.queue.calls.length
  timers : ∀ (call : Nat) (timer : Timer),
    state.timers[call]? = some timer → timer.Runs state.clock
  standing : Standing state.Early PointInTime InTime state.queue
  returned : ∀ (call : Nat) (timer : Timer) (c : Call),
    state.timers[call]? = some timer → state.queue.calls[call]? = some c →
      c.point = .done (.error .timeout) →
        ∃ returned, timer.returned = some returned ∧
          timer.began + timer.config.timeout ≤ returned

variable {state next : Clocked}

theorem sound_new (p : Priority) (capacity : Nat) {batchSize : Nat}
    (small : batchSize ≤ 65535) : Sound p (.new capacity batchSize) where
  queue := Tx.sound_new p capacity small
  length := rfl
  timers call timer impossible := by cases impossible
  standing call c impossible := by cases impossible
  returned call timer c impossible := by cases impossible

/-- A push that has returned is recorded so. -/
theorem hasReturned_of {call : Nat} {c : Call}
    {result : Except SendError Unit} (found : queue.calls[call]? = some c)
    (point : c.point = .done result) : hasReturned queue call = true := by
  rcases c with ⟨msg, qos, since, here, turn⟩
  cases point
  simp only [hasReturned, found]

/-- A push takes a step; its timer expires only after its deadline. -/
theorem goes_sound (sound : Sound p state) {call : Nat}
    (own : (∃ backoff closed, action = .push call backoff closed) ∨
      action = .expire call ∨ action = .cancel call)
    (at_ : action.At p)
    (expired : ∀ since, action = .expire call → ¬ state.Early call since)
    (taken : state.goes call action = some next) : Sound p next := by
  rcases Option.map_eq_some_iff.1 taken with ⟨queue, moved, rfl⟩
  have stepped := sound.queue.stepped moved
  have same : ∀ {other : Nat} {since : Since},
      Clocked.Early
        { state with
          queue := queue
          timers := state.timers.modify call fun timer =>
            timer.settle state.clock (waiting state.queue call)
              (waiting queue call) (hasReturned queue call) } other since →
        state.Early other since := by
    rintro other since ⟨timer, found, early⟩
    rcases getElem?_modify_cases found with ⟨before, was, rfl⟩
    refine ⟨before, was, ?_⟩
    split at early <;> exact early
  have standing := stepped_inTime stepped sound.queue
    (fun other since expires isEarly => by
      have own : other = call := by
        rcases own with ⟨_, _, rfl⟩ | rfl | rfl
        · cases expires
        · cases expires
          rfl
        · cases expires
      subst own
      exact expired since expires isEarly)
    sound.standing
  constructor
  · exact sound.queue.step at_ moved
  · dsimp only
    rw [List.length_modify, sound.length, stepped_length stepped own]
  · intro other timer found
    rcases getElem?_modify_cases found with ⟨before, was, rfl⟩
    split
    · exact (sound.timers other before was).settle _ _ _
    · exact sound.timers other before was
  · exact standing.of_fewer fun _ _ _ early => same early
  · intro other timer c found called late
    rcases getElem?_modify_cases found with ⟨before, was, rfl⟩
    dsimp only at called
    split
    · rename_i here
      subst here
      have done := hasReturned_of called late
      refine ⟨state.clock, by simp only [Timer.settle, done, if_true], ?_⟩
      by_contra early
      have inTime := (standing call c called
        ⟨before, was, Nat.lt_of_not_le early⟩).1
      rw [late] at inTime
      exact inTime rfl
    · rename_i distinct
      rw [stepped_elsewhere stepped distinct own] at called
      exact sound.returned other before c was called late

/-- The timer of a wait is set to the time left, or to an interval. -/
theorem set_sound (sound : Sound p state) {call : Nat} {wait : Wait}
    (found : state.timers[call]? = some timer)
    (kept : wait.progress = false →
      timer.began + timer.config.timeout ≤ wait.wake) :
    Sound p (state.set call wait) := by
  have same : ∀ {other : Nat} {since : Since},
      (state.set call wait).Early other since →
        state.Early other since := by
    rintro other since ⟨one, now, early⟩
    rcases getElem?_modify_cases now with ⟨before, was, rfl⟩
    refine ⟨before, was, ?_⟩
    split at early <;> exact early
  constructor
  · exact sound.queue
  · exact (List.length_modify ..).trans sound.length
  · intro other one now
    rcases getElem?_modify_cases now with ⟨before, was, rfl⟩
    have runs := sound.timers other before was
    split
    · rename_i here
      subst here
      rw [found] at was
      cases was
      refine ⟨runs.began_le, runs.start, ?_⟩
      intro other same
      cases same
      exact kept
    · exact runs
  · exact sound.standing.of_fewer fun _ _ _ early => same early
  · intro other one c now called late
    rcases getElem?_modify_cases now with ⟨before, was, rfl⟩
    have known := sound.returned other before c was called late
    split <;> exact known

theorem arm_sound (sound : Sound p state) {call : Nat}
    (taken : state.arm call = some next) : Sound p next := by
  unfold Clocked.arm at taken
  split at taken
  · rename_i timer waits found _
    have runs := sound.timers call timer found
    split at taken
    · cases taken
    · split at taken
      · cases taken
        exact set_sound sound found fun _ =>
          Nat.add_le_add_right runs.began_le _
      · split at taken
        · rename_i none_
          have passed := runs.left_none none_
          refine goes_sound sound (.inr (.inl rfl)) trivial ?_ taken
          rintro since _ ⟨other, again, early⟩
          rw [found] at again
          cases again
          exact absurd passed (Nat.not_le.2 early)
        · rename_i left some_
          cases taken
          refine set_sound sound found ?_
          intro long
          have enough := runs.left_some some_
          have shorter : left ≤ timer.config.timeoutBatch := by
            simpa using long
          rw [Nat.min_eq_left shorter]
          exact enough
  · cases taken

/-- A timer that is set to the time left expires after the deadline. -/
theorem expire_sound (sound : Sound p state) {call : Nat}
    (unhurried : Unhurried state (.expire call))
    (taken : state.expire call = some next) : Sound p next := by
  unfold Clocked.expire at taken
  split at taken
  · rename_i config began start wait returned found
    split at taken
    · cases taken
    · rename_i due
      refine goes_sound sound (.inr (.inl rfl)) trivial ?_ taken
      rintro since _ ⟨other, again, early⟩
      rw [found] at again
      cases again
      rw [Unhurried, found] at unhurried
      have deadline :=
        (sound.timers call _ found).wait wait rfl unhurried
      exact due (Nat.lt_of_lt_of_le early deadline)
  · cases taken

/-- A push is called; its timer has nothing to show yet. -/
theorem call_sound (sound : Sound p state) {msg : Bytes} {qos : QoS}
    {since : Since} {config : PushConfig}
    (at_ : (Action.call msg qos since config).At p)
    (taken : state.step (.call msg qos since config) = some next) :
    Sound p next := by
  cases taken
  constructor
  · have routed : (Queue.Action.call msg qos since).At p := at_
    exact sound.queue.step routed rfl
  · dsimp only
    rw [List.length_append, List.length_append, sound.length]
    rfl
  · intro call one found
    rcases getElem?_concat found with was | ⟨_, rfl⟩
    · exact sound.timers call one was
    · refine ⟨Nat.le_refl _, ?_, ?_⟩
      · intro start impossible
        cases impossible
      · intro wait impossible
        cases impossible
  · intro call c called early
    rcases early with ⟨one, found, before⟩
    rcases getElem?_concat called with was | ⟨rfl, rfl⟩
    · rcases getElem?_concat found with old | ⟨new, _⟩
      · exact sound.standing call c was ⟨one, old, before⟩
      · have bound := (List.getElem?_eq_some_iff.1 was).1
        rw [new, sound.length] at bound
        exact absurd bound (Nat.lt_irrefl _)
    · refine ⟨trivial, fun here locked => ?_⟩
      rcases sound.queue.logged.holder _ ⟨here, locked⟩ with
        ⟨c, _, held, _⟩
      have bound := (List.getElem?_eq_some_iff.1 held).1
      exact absurd bound (Nat.lt_irrefl _)
  · intro call one c found called late
    rcases getElem?_concat called with before | ⟨_, rfl⟩
    · rcases getElem?_concat found with was | ⟨new, _⟩
      · exact sound.returned call one c was before late
      · have bound := (List.getElem?_eq_some_iff.1 before).1
        rw [new, sound.length] at bound
        exact absurd bound (Nat.lt_irrefl _)
    · cases late

theorem step_sound (sound : Sound p state) {action : Action}
    (at_ : action.At p) (unhurried : Unhurried state action)
    (taken : state.step action = some next) : Sound p next := by
  cases action with
  | tick duration =>
      cases taken
      constructor
      · exact sound.queue
      · exact sound.length
      · intro call timer found
        exact (sound.timers call timer found).tick (Nat.le_add_right _ _)
      · refine sound.standing.of_fewer ?_
        rintro call c _ ⟨timer, found, early⟩
        exact ⟨timer, found,
          Nat.lt_of_le_of_lt (Nat.le_add_right _ _) early⟩
      · exact sound.returned
  | call msg qos since config => exact call_sound sound at_ taken
  | push call backoff closed =>
      rw [Clocked.step] at taken
      split at taken
      · cases taken
      · refine goes_sound sound (.inl ⟨_, _, rfl⟩) trivial ?_ taken
        intro since impossible
        cases impossible
  | arm call => exact arm_sound sound taken
  | expire call => exact expire_sound sound unhurried taken
  | cancel call =>
      rw [Clocked.step] at taken
      split at taken
      · cases taken
      · refine goes_sound sound (.inr (.inr rfl)) trivial ?_ taken
        intro since impossible
        cases impossible
  | other action =>
      rw [Clocked.step] at taken
      split at taken
      · rename_i foreign
        rcases Option.map_eq_some_iff.1 taken with ⟨queue, moved, rfl⟩
        have stepped := sound.queue.stepped moved
        have calls := stepped_foreign stepped foreign
        constructor
        · refine sound.queue.step ?_ moved
          cases action with
          | call => cases foreign
          | _ => trivial
        · exact sound.length.trans (congrArg List.length calls).symm
        · exact sound.timers
        · refine stepped_inTime stepped sound.queue ?_ sound.standing
          rintro call since rfl
          cases foreign
        · intro call timer c found called
          dsimp only at called
          rw [calls] at called
          exact sound.returned call timer c found called
      · cases taken

/--
In every run in which no interval of the progress checks runs out, a push
returns `Timeout` only when its timeout has elapsed since it was called.
-/
theorem timeout_of_run (p : Priority) (capacity batchSize : Nat)
    (small : batchSize ≤ 65535) (actions : List Action)
    (atPriority : ∀ action ∈ actions, action.At p)
    (unhurried : Runs.Guarded Clocked.step Unhurried
      (.new capacity batchSize) actions)
    (state : Clocked)
    (ran : Runs.run Clocked.step (.new capacity batchSize) actions =
      some state)
    (call : Nat) (c : Call) (timer : Timer)
    (called : state.queue.calls[call]? = some c)
    (found : state.timers[call]? = some timer)
    (timeout : c.point = .done (.error .timeout)) :
    ∃ returned, timer.returned = some returned ∧
      timer.began + timer.config.timeout ≤ returned := by
  have sound : Sound p state := Runs.invariant
    (fun _ _ _ sound both taken => step_sound sound both.1 both.2 taken)
    (sound_new p capacity small) (unhurried.with_all atPriority) ran
  exact sound.returned call timer c found called timeout

/-- A message of one byte. -/
def shortMessage : Bytes :=
  .single (.ofBuf [7])

/-- An express message takes the only batch, and nobody pulls it. -/
def emptied : List Action :=
  [.call shortMessage ⟨8⟩ ⟨false, false⟩ ⟨10, 10⟩] ++
    List.replicate 11 (.push 0 true false)

/--
A second push waits for a batch and sets its timer, which expires after
`duration`.
-/
def starved (config : PushConfig) (duration : Nat) : List Action :=
  emptied ++
    [.call shortMessage ⟨0⟩ ⟨false, false⟩ config, .push 1 true false,
      .push 1 true false, .push 1 true false, .arm 1, .tick duration,
      .expire 1, .push 1 true false, .push 1 true false,
      .push 1 true false]

def timedOut : Point → Bool
  | .done (.error .timeout) => true
  | _ => false

theorem timedOut_eq {point : Point} (test : timedOut point = true) :
    point = .done (.error .timeout) := by
  unfold timedOut at test
  split at test
  · rfl
  · cases test

/-- The second push has returned `Timeout`, and its timer shows when. -/
theorem starved_ends (config : PushConfig) (duration : Nat)
    (passed : (Runs.run Clocked.step (.new 1 32)
      (starved config duration)).any (fun state =>
        (state.queue.calls[1]?.any fun c => timedOut c.point) &&
          decide (state.timers[1]? =
            some ⟨config, 0, some 0, none, some duration⟩)) = true) :
    ∃ state c,
      Runs.run Clocked.step (.new 1 32) (starved config duration) =
          some state ∧
        state.queue.calls[1]? = some c ∧
        state.timers[1]? =
          some ⟨config, 0, some 0, none, some duration⟩ ∧
        c.point = .done (.error .timeout) := by
  rcases Runs.exists_of_any passed with ⟨state, ran, found⟩
  rw [Bool.and_eq_true] at found
  rcases (Option.any_eq_true _ _).1 found.1 with ⟨c, called, ended⟩
  exact ⟨state, c, ran, called, of_decide_eq_true found.2,
    timedOut_eq ended⟩

/-- With an interval as long as the timeout a push gives up in time. -/
theorem timeout_of_run_starved :
    ∃ state timer,
      Runs.run Clocked.step (.new 1 32) (starved ⟨10, 10⟩ 10) =
          some state ∧
        state.timers[1]? = some timer ∧
        ∃ returned, timer.returned = some returned ∧
          timer.began + timer.config.timeout ≤ returned := by
  rcases starved_ends ⟨10, 10⟩ 10 (by decide +kernel) with
    ⟨state, c, ran, called, found, ended⟩
  exact ⟨state, _, ran, found,
    timeout_of_run .high 1 32 (by decide) (starved ⟨10, 10⟩ 10)
      (by decide +kernel) (by decide +kernel) state ran 1 c _ called found
      ended⟩

/-- With a shorter interval it gives up when the interval is over. -/
theorem progress_gives_up :
    (∀ action ∈ starved ⟨10, 1⟩ 1, action.At .high) ∧
      ∃ state c timer returned,
        Runs.run Clocked.step (.new 1 32) (starved ⟨10, 1⟩ 1) =
            some state ∧
          state.queue.calls[1]? = some c ∧
          state.timers[1]? = some timer ∧
          c.point = .done (.error .timeout) ∧
          timer.returned = some returned ∧
          returned < timer.began + timer.config.timeout := by
  constructor
  · decide +kernel
  · rcases starved_ends ⟨10, 1⟩ 1 (by decide +kernel) with
      ⟨state, c, ran, called, found, ended⟩
    exact ⟨state, c, _, _, ran, called, found, ended, rfl, by decide⟩

end Timeouts
end Tx
end Thubo
