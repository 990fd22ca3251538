import Thubo.Lib.Runs
import Thubo.Sync.Event

/-!
# Waiting for an event

The waiter checks the flag, registers a listener, checks the flag once more
and parks until the listener is notified.  A notification and the loss of an
end change the flag first and notify the listener in a second step.

Calls of `notify` share their notifier and may overlap.  A waiter is awaited
by one call at a time, since its owners hold it exclusively.  An end is
dropped when no call on it is in flight.
-/

namespace Thubo
namespace Waiting

/-- Where a call of `wait` is. -/
inductive WaitPoint where
  /-- The check at the top of the loop. -/
  | check
  | listen
  /-- The check with a listener registered. -/
  | recheck (notified : Bool)
  | parked (notified : Bool)
deriving DecidableEq, Repr

/-- Where a call of `notify` is. -/
inductive NotifyPoint where
  | set
  /-- The listener is notified. -/
  | wake
deriving DecidableEq, Repr

/-- A call in flight, and whether an end was gone when it started. -/
structure Call (Point : Type) where
  point : Point
  late : Bool
deriving DecidableEq, Repr

/-- The result of a call, and whether an end was gone when it started. -/
structure Answer where
  ok : Bool
  late : Bool
deriving DecidableEq, Repr

/-- One of the two ends. -/
inductive End where
  | held
  /-- Its drop has started. -/
  | dropping
  /-- Its drop has stored the error and notifies the listener. -/
  | waking
  | gone
deriving DecidableEq, Repr

/-- The drop of the end is in progress. -/
def End.Busy (side : End) : Prop :=
  side = .dropping ∨ side = .waking

/-- The event, its two ends and the calls on them. -/
structure State where
  event : Event
  wait : Option (Call WaitPoint)
  notifies : List (Call NotifyPoint)
  notifier : End
  waiter : End
  /-- The results of `wait`. -/
  waited : List Answer
  /-- The results of `notify`. -/
  notified : List Answer
deriving DecidableEq, Repr

/-- A new notifier and its waiter. -/
def new : State :=
  ⟨.new, none, [], .held, .held, [], []⟩

namespace WaitPoint

/--
A listener is notified.  There is one listener at most, so one more
notification is the same as at least one.
-/
def notify : WaitPoint → WaitPoint
  | .recheck _ => .recheck true
  | .parked _ => .parked true
  | point => point

end WaitPoint

inductive Action where
  | startWait
  /-- The next step of the call of `wait`. -/
  | wait
  /-- A parked call is dropped. -/
  | cancel
  | startNotify
  /-- The next step of a call of `notify`. -/
  | notify (index : Nat)
  | dropNotifier
  /-- The next step of the drop of the notifier. -/
  | notifier
  | dropWaiter
  /-- The next step of the drop of the waiter. -/
  | waiter
deriving DecidableEq, Repr

namespace State

/-- One of the ends is gone. -/
def late (state : State) : Bool :=
  state.notifier == .gone || state.waiter == .gone

/-- Notify the listener. -/
def wake (state : State) : State :=
  { state with
    wait := state.wait.map fun call =>
      { call with point := call.point.notify } }

/-- The call of `wait` returns. -/
def returns (state : State) (ok late : Bool) : State :=
  { state with wait := none, waited := state.waited ++ [⟨ok, late⟩] }

/-- Check the flag and go on at a point when it is not set. -/
def check (state : State) (late : Bool) (next : WaitPoint) : State :=
  let (found, event) := state.event.check
  let state := { state with event := event }
  match found with
  | .ok => state.returns true late
  | .unset => { state with wait := some ⟨next, late⟩ }
  | .err => state.returns false late

def stepWait (state : State) : Call WaitPoint → Option State
  | ⟨.check, late⟩ => some (state.check late .listen)
  | ⟨.listen, late⟩ =>
      some { state with wait := some ⟨.recheck false, late⟩ }
  | ⟨.recheck notified, late⟩ =>
      some (state.check late (.parked notified))
  | ⟨.parked true, late⟩ => some { state with wait := some ⟨.check, late⟩ }
  | ⟨.parked false, _⟩ => none

def stepNotify (state : State) (index : Nat) :
    Call NotifyPoint → State
  | ⟨.set, late⟩ =>
      let (ok, event) := state.event.set
      let state := { state with event := event }
      if ok then
        { state with notifies := state.notifies.set index ⟨.wake, late⟩ }
      else
        { state with
          notifies := state.notifies.eraseIdx index
          notified := state.notified ++ [⟨false, late⟩] }
  | ⟨.wake, late⟩ =>
      let state := state.wake
      { state with
        notifies := state.notifies.eraseIdx index
        notified := state.notified ++ [⟨true, late⟩] }

/-- One step of the drop of an end. -/
def stepDrop (state : State) : End → Option (State × End)
  | .dropping => some ({ state with event := state.event.fail }, .waking)
  | .waking => some (state.wake, .gone)
  | _ => none

def step (state : State) : Action → Option State
  | .startWait =>
      if state.waiter = .held ∧ state.wait = none then
        some { state with wait := some ⟨.check, state.late⟩ }
      else
        none
  | .wait => state.wait.bind state.stepWait
  | .cancel =>
      match state.wait with
      | some ⟨.parked _, _⟩ => some { state with wait := none }
      | _ => none
  | .startNotify =>
      if state.notifier = .held then
        some
          { state with
            notifies := state.notifies ++ [⟨.set, state.late⟩] }
      else
        none
  | .notify index =>
      (state.notifies[index]?).map (state.stepNotify index)
  | .dropNotifier =>
      if state.notifier = .held ∧ state.notifies = [] then
        some { state with notifier := .dropping }
      else
        none
  | .notifier =>
      (state.stepDrop state.notifier).map fun (state, notifier) =>
        { state with notifier := notifier }
  | .dropWaiter =>
      if state.waiter = .held ∧ state.wait = none then
        some { state with waiter := .dropping }
      else
        none
  | .waiter =>
      (state.stepDrop state.waiter).map fun (state, waiter) =>
        { state with waiter := waiter }

/-- The flag is set, for a notification or for the loss of an end. -/
def Flagged (state : State) : Prop :=
  state.event.ok = true ∨ state.event.err = true

/-- The call of `wait` sleeps and its listener has not been notified. -/
def Asleep (state : State) : Prop :=
  ∃ late, state.wait = some ⟨.parked false, late⟩

/-- The waiter sleeps, the flag is set and nobody is about to wake it. -/
structure Stuck (state : State) : Prop where
  asleep : state.Asleep
  flagged : state.Flagged
  no_notify : state.notifies = []
  no_drop : ¬ state.notifier.Busy ∧ ¬ state.waiter.Busy

/-- Somebody is about to notify the listener. -/
def Pending (state : State) : Prop :=
  (∃ late, ⟨.wake, late⟩ ∈ state.notifies) ∨ state.notifier = .waking

/-- What holds in every state. -/
structure Sound (state : State) : Prop where
  pending : state.Asleep → state.Flagged → state.Pending
  held : state.wait ≠ none → state.waiter = .held
  notifier_err : state.notifier = .waking ∨ state.notifier = .gone →
    state.event.err = true
  waiter_err : state.waiter = .waking ∨ state.waiter = .gone →
    state.event.err = true
  wait_late : ∀ point, state.wait = some ⟨point, true⟩ →
    state.event.err = true ∧ point = .check
  notify_late : ∀ point, ⟨point, true⟩ ∈ state.notifies →
    state.event.err = true ∧ point = .set
  waited : ∀ answer ∈ state.waited, answer.late = true → answer.ok = false
  notified : ∀ answer ∈ state.notified, answer.late = true →
    answer.ok = false

variable {state after : State}

theorem new_sound : new.Sound where
  pending := by
    rintro ⟨late, asleep⟩
    cases asleep
  held none := absurd rfl none
  notifier_err := by
    rintro (busy | gone)
    · cases busy
    · cases gone
  waiter_err := by
    rintro (busy | gone)
    · cases busy
    · cases gone
  wait_late := by
    intro point waits
    cases waits
  notify_late := by
    intro point member
    cases member
  waited := List.forall_mem_nil _
  notified := List.forall_mem_nil _

/-- An end that is gone has left the error. -/
theorem Sound.late_err (sound : state.Sound) (late : state.late = true) :
    state.event.err = true := by
  simp only [State.late, Bool.or_eq_true, beq_iff_eq] at late
  rcases late with notifier | waiter
  · exact sound.notifier_err (Or.inr notifier)
  · exact sound.waiter_err (Or.inr waiter)

/-- A call in flight has its waiter, and is not late without an error. -/
theorem Sound.of_wait (sound : state.Sound) {point : WaitPoint}
    {late : Bool} (waits : state.wait = some ⟨point, late⟩) :
    state.waiter = .held ∧ (late = true → state.event.err = true) := by
  constructor
  · apply sound.held
    rw [waits]
    exact Option.some_ne_none _
  · rintro rfl
    exact (sound.wait_late point waits).1

/-- A call of `wait` returns, with an error if it is late. -/
theorem Sound.returns (sound : state.Sound) {ok late : Bool}
    (answers : late = true → ok = false) : (state.returns ok late).Sound :=
  { sound with
    pending := by
      rintro ⟨_, asleep⟩
      cases asleep
    held := fun none => absurd rfl none
    wait_late := by
      intro point waits
      cases waits
    waited := by
      intro answer member
      rcases List.mem_append.1 member with old | new
      · exact sound.waited answer old
      · rw [List.mem_singleton.1 new]
        exact answers }

/-- Clearing the notification keeps the invariant. -/
theorem Sound.clear (sound : state.Sound) :
    State.Sound
      { state with event := ⟨false, state.event.err⟩ } :=
  { sound with
    pending := by
      intro asleep flagged
      apply sound.pending asleep
      rcases flagged with ok | err
      · cases ok
      · exact Or.inr err }

/-- A call goes on while the flag is unset. -/
theorem Sound.goes_on (sound : state.Sound) {point next : WaitPoint}
    {late : Bool} (waits : state.wait = some ⟨point, late⟩)
    (unset : state.event = ⟨false, false⟩) :
    State.Sound { state with wait := some ⟨next, late⟩ } :=
  { sound with
    pending := by
      intro _ flagged
      rcases flagged with ok | err
      · rw [unset] at ok
        cases ok
      · rw [unset] at err
        cases err
    held := fun _ => (sound.of_wait waits).1
    wait_late := by
      intro point waits'
      cases waits'
      have err := (sound.of_wait waits).2 rfl
      rw [unset] at err
      cases err }

/-- A call past its first check goes on, but not to sleep. -/
theorem Sound.moves (sound : state.Sound) {point next : WaitPoint}
    {late : Bool} (waits : state.wait = some ⟨point, late⟩)
    (past : point ≠ .check) (awake : next ≠ .parked false) :
    State.Sound { state with wait := some ⟨next, late⟩ } :=
  { sound with
    pending := by
      rintro ⟨_, asleep⟩
      cases asleep
      exact absurd rfl awake
    held := fun _ => (sound.of_wait waits).1
    wait_late := by
      intro _ waits'
      cases waits'
      exact absurd (sound.wait_late point waits).2 past }

/-- A check returns, or goes on with the flag unset. -/
theorem Sound.check (sound : state.Sound) {point next : WaitPoint}
    {late : Bool} (waits : state.wait = some ⟨point, late⟩) :
    (state.check late next).Sound := by
  have cleared := sound.clear
  unfold State.check Event.check
  cases err : state.event.err with
  | true =>
      rw [err] at cleared
      simp only [if_true]
      exact cleared.returns fun _ => rfl
  | false =>
      rw [err] at cleared
      have early : late = true → true = false := by
        intro is_late
        rw [(sound.of_wait waits).2 is_late] at err
        cases err
      cases ok : state.event.ok with
      | true =>
          simp only [if_true, Bool.false_eq_true, if_false]
          exact cleared.returns early
      | false =>
          simp only [Bool.false_eq_true, if_false]
          exact cleared.goes_on waits rfl

/-- The listener is notified. -/
theorem Sound.wake (sound : state.Sound) :
    state.wake.Sound ∧ ¬ state.wake.Asleep := by
  have awake : ¬ state.wake.Asleep := by
    rintro ⟨late, asleep⟩
    rcases Option.map_eq_some_iff.1 asleep with ⟨⟨point, _⟩, _, same⟩
    cases point <;> cases same
  refine ⟨⟨fun asleep => absurd asleep awake, ?_, sound.notifier_err,
    sound.waiter_err, ?_, sound.notify_late, sound.waited,
    sound.notified⟩, awake⟩
  · intro waits
    apply sound.held
    intro none
    rw [State.wake, none] at waits
    exact waits rfl
  · intro point waits
    rcases Option.map_eq_some_iff.1 waits with ⟨⟨former, late⟩, was, same⟩
    cases same
    rcases sound.wait_late former was with ⟨err, rfl⟩
    exact ⟨err, rfl⟩

/-- A step of a call of `wait`. -/
theorem Sound.stepWait (sound : state.Sound) {call : Call WaitPoint}
    (waits : state.wait = some call)
    (stepped : state.stepWait call = some after) : after.Sound := by
  rcases call with ⟨point, late⟩
  cases point with
  | check =>
      cases stepped
      exact sound.check waits
  | recheck notified =>
      cases stepped
      exact sound.check waits
  | listen =>
      cases stepped
      exact sound.moves waits WaitPoint.noConfusion (by simp)
  | parked notified =>
      cases notified with
      | false => cases stepped
      | true =>
          cases stepped
          exact sound.moves waits WaitPoint.noConfusion
            WaitPoint.noConfusion

/-- Calls of `notify` go, except for those that are about to wake. -/
theorem Sound.answers (sound : state.Sound) {index : Nat}
    {call : Call NotifyPoint} (present : state.notifies[index]? = some call)
    {answer : Answer} (answers : answer.late = true → answer.ok = false)
    (kept : state.Asleep → call.point ≠ .wake) :
    State.Sound
      { state with
        notifies := state.notifies.eraseIdx index
        notified := state.notified ++ [answer] } :=
  { sound with
    pending := by
      intro asleep flagged
      rcases sound.pending asleep flagged with ⟨late, member⟩ | waking
      · refine Or.inl ⟨late, ?_⟩
        rcases List.getElem?_of_mem member with ⟨other, found⟩
        apply List.mem_eraseIdx_iff_getElem?.2
        refine ⟨other, ?_, found⟩
        rintro rfl
        rw [found] at present
        cases present
        exact kept asleep rfl
      · exact Or.inr waking
    notify_late := fun point member =>
      sound.notify_late point (List.mem_of_mem_eraseIdx member)
    notified := by
      intro other member
      rcases List.mem_append.1 member with old | new
      · exact sound.notified other old
      · rw [List.mem_singleton.1 new]
        exact answers }

/-- A notification of an event that has lost an end changes nothing. -/
theorem Sound.sets (sound : state.Sound) (err : state.event.err = true) :
    State.Sound { state with event := ⟨true, true⟩ } :=
  { sound with
    pending := fun asleep _ => sound.pending asleep (Or.inr err)
    notifier_err := fun _ => rfl
    waiter_err := fun _ => rfl
    wait_late := fun point waits => ⟨rfl, (sound.wait_late point waits).2⟩
    notify_late := fun point member =>
      ⟨rfl, (sound.notify_late point member).2⟩ }

/-- A notification is set and its call is about to wake the listener. -/
theorem Sound.signals (sound : state.Sound) {index : Nat}
    {call : Call NotifyPoint} (present : state.notifies[index]? = some call)
    (err : state.event.err = false) (early : call.late = false) :
    State.Sound
      { state with
        event := ⟨true, false⟩
        notifies := state.notifies.set index ⟨.wake, call.late⟩ } :=
  { sound with
    pending := by
      intro _ _
      refine Or.inl ⟨call.late, List.mem_of_getElem? (i := index) ?_⟩
      have inside := (List.getElem?_eq_some_iff.1 present).1
      rw [List.getElem?_set_self inside]
    notifier_err := fun busy => err.symm.trans (sound.notifier_err busy)
    waiter_err := fun busy => err.symm.trans (sound.waiter_err busy)
    wait_late := by
      intro point waits
      rcases sound.wait_late point waits with ⟨lost, first⟩
      exact ⟨err.symm.trans lost, first⟩
    notify_late := by
      intro point member
      rcases List.mem_or_eq_of_mem_set member with old | new
      · rcases sound.notify_late point old with ⟨lost, first⟩
        exact ⟨err.symm.trans lost, first⟩
      · rw [early] at new
        cases new }

/-- A step of a call of `notify`. -/
theorem Sound.stepNotify (sound : state.Sound) {index : Nat}
    {call : Call NotifyPoint}
    (present : state.notifies[index]? = some call) :
    (state.stepNotify index call).Sound := by
  have member := List.mem_of_getElem? present
  rcases call with ⟨point, late⟩
  cases point with
  | set =>
      unfold State.stepNotify Event.set
      cases err : state.event.err with
      | true =>
          exact (sound.sets err).answers present (fun _ => rfl)
            (fun _ => NotifyPoint.noConfusion)
      | false =>
          refine sound.signals present err ?_
          cases late with
          | false => rfl
          | true => cases err.symm.trans (sound.notify_late .set member).1
  | wake =>
      rcases sound.wake with ⟨woken, awake⟩
      refine woken.answers present ?_ (fun asleep => absurd asleep awake)
      rintro rfl
      cases (sound.notify_late .wake member).2

/-- A call starts, and is late when an end is gone. -/
theorem Sound.startWait (sound : state.Sound)
    (held : state.waiter = .held) :
    State.Sound { state with wait := some ⟨.check, state.late⟩ } :=
  { sound with
    pending := by
      rintro ⟨_, asleep⟩
      cases asleep
    held := fun _ => held
    wait_late := by
      intro point waits
      injection waits with same
      injection same with first late
      exact ⟨sound.late_err late, first.symm⟩ }

theorem Sound.startNotify (sound : state.Sound) :
    State.Sound
      { state with
        notifies := state.notifies ++ [⟨.set, state.late⟩] } :=
  { sound with
    pending := by
      intro asleep flagged
      rcases sound.pending asleep flagged with ⟨late, member⟩ | waking
      · exact Or.inl ⟨late, List.mem_append_left _ member⟩
      · exact Or.inr waking
    notify_late := by
      intro point member
      rcases List.mem_append.1 member with old | new
      · exact sound.notify_late point old
      · injection List.mem_singleton.1 new with first late
        exact ⟨sound.late_err late.symm, first⟩ }

/-- A call of `wait` is dropped. -/
theorem Sound.cancel (sound : state.Sound) :
    State.Sound { state with wait := none } :=
  { sound with
    pending := by
      rintro ⟨_, asleep⟩
      cases asleep
    held := fun none => absurd rfl none
    wait_late := by
      intro point waits
      cases waits }

/-- The drops of the two ends start. -/
theorem Sound.dropNotifier (sound : state.Sound)
    (held : state.notifier = .held) :
    State.Sound { state with notifier := .dropping } :=
  { sound with
    pending := by
      intro asleep flagged
      rcases sound.pending asleep flagged with wakes | waking
      · exact Or.inl wakes
      · cases held.symm.trans waking
    notifier_err := by
      rintro (waking | gone)
      · cases waking
      · cases gone }

theorem Sound.dropWaiter (sound : state.Sound) (idle : state.wait = none) :
    State.Sound { state with waiter := .dropping } :=
  { sound with
    held := fun waits => absurd idle waits
    waiter_err := by
      rintro (waking | gone)
      · cases waking
      · cases gone }

/-- The drop of the notifier stores the error. -/
theorem Sound.notifierFails (sound : state.Sound) :
    State.Sound
      { state with event := state.event.fail, notifier := .waking } :=
  { sound with
    pending := fun _ _ => Or.inr rfl
    notifier_err := fun _ => rfl
    waiter_err := fun _ => rfl
    wait_late := fun point waits => ⟨rfl, (sound.wait_late point waits).2⟩
    notify_late := fun point member =>
      ⟨rfl, (sound.notify_late point member).2⟩ }

/-- The drop of the notifier notifies the listener. -/
theorem Sound.notifierWakes (sound : state.Sound)
    (waking : state.notifier = .waking) :
    State.Sound { state.wake with notifier := .gone } := by
  rcases sound.wake with ⟨woken, awake⟩
  exact
    { woken with
      pending := fun asleep _ => absurd asleep awake
      notifier_err := fun _ => sound.notifier_err (Or.inl waking) }

/-- The drop of the waiter stores the error while nobody waits. -/
theorem Sound.waiterFails (sound : state.Sound)
    (dropping : state.waiter = .dropping) :
    State.Sound
      { state with event := state.event.fail, waiter := .waking } := by
  have idle : state.wait = none := by
    cases waits : state.wait with
    | none => rfl
    | some call =>
        have held := sound.held (by rw [waits]; exact Option.some_ne_none _)
        cases dropping.symm.trans held
  exact
    { sound with
      pending := by
        rintro ⟨_, asleep⟩
        cases idle.symm.trans asleep
      held := fun waits => absurd idle waits
      notifier_err := fun _ => rfl
      waiter_err := fun _ => rfl
      wait_late := fun point waits =>
        ⟨rfl, (sound.wait_late point waits).2⟩
      notify_late := fun point member =>
        ⟨rfl, (sound.notify_late point member).2⟩ }

/-- The drop of the waiter notifies the listener. -/
theorem Sound.waiterWakes (sound : state.Sound)
    (waking : state.waiter = .waking) :
    State.Sound { state.wake with waiter := .gone } := by
  rcases sound.wake with ⟨woken, awake⟩
  exact
    { woken with
      pending := fun asleep _ => absurd asleep awake
      held := fun waits => by
        cases waking.symm.trans (woken.held waits)
      waiter_err := fun _ => sound.waiter_err (Or.inl waking) }

/-- Every step keeps the invariant. -/
theorem Sound.step (sound : state.Sound) {action : Action}
    (stepped : state.step action = some after) : after.Sound := by
  cases action with
  | startWait =>
      unfold State.step at stepped
      by_cases free : state.waiter = .held ∧ state.wait = none
      · simp only [if_pos free, Option.some.injEq] at stepped
        rw [← stepped]
        exact sound.startWait free.1
      · simp only [if_neg free] at stepped
        cases stepped
  | wait =>
      rcases Option.bind_eq_some_iff.1 stepped with ⟨call, waits, moved⟩
      exact sound.stepWait waits moved
  | cancel =>
      unfold State.step at stepped
      simp only at stepped
      split at stepped
      · cases stepped
        exact sound.cancel
      · cases stepped
  | startNotify =>
      unfold State.step at stepped
      by_cases held : state.notifier = .held
      · simp only [if_pos held, Option.some.injEq] at stepped
        rw [← stepped]
        exact sound.startNotify
      · simp only [if_neg held] at stepped
        cases stepped
  | notify index =>
      rcases Option.map_eq_some_iff.1 stepped with ⟨call, present, same⟩
      rw [← same]
      exact sound.stepNotify present
  | dropNotifier =>
      unfold State.step at stepped
      by_cases free : state.notifier = .held ∧ state.notifies = []
      · simp only [if_pos free, Option.some.injEq] at stepped
        rw [← stepped]
        exact sound.dropNotifier free.1
      · simp only [if_neg free] at stepped
        cases stepped
  | dropWaiter =>
      unfold State.step at stepped
      by_cases free : state.waiter = .held ∧ state.wait = none
      · simp only [if_pos free, Option.some.injEq] at stepped
        rw [← stepped]
        exact sound.dropWaiter free.2
      · simp only [if_neg free] at stepped
        cases stepped
  | notifier =>
      rcases Option.map_eq_some_iff.1 stepped with ⟨⟨_, _⟩, moved, same⟩
      rw [← same]
      cases side : state.notifier <;> rw [side] at moved <;> cases moved
      · exact sound.notifierFails
      · exact sound.notifierWakes side
  | waiter =>
      rcases Option.map_eq_some_iff.1 stepped with ⟨⟨_, _⟩, moved, same⟩
      rw [← same]
      cases side : state.waiter <;> rw [side] at moved <;> cases moved
      · exact sound.waiterFails side
      · exact sound.waiterWakes side

/-- Somebody still runs while the waiter sleeps on a set flag. -/
theorem Sound.not_stuck (sound : state.Sound) : ¬ state.Stuck := by
  rintro ⟨asleep, flagged, no_notify, no_notifier, _⟩
  rcases sound.pending asleep flagged with ⟨late, member⟩ | waking
  · rw [no_notify] at member
    cases member
  · exact no_notifier (Or.inr waking)

/-- A late call of `wait` returns the error at its first check. -/
theorem Sound.late_wait (sound : state.Sound) {point : WaitPoint}
    (waits : state.wait = some ⟨point, true⟩) :
    ∃ next, state.step .wait = some next ∧ next.wait = none ∧
      next.waited = state.waited ++ [⟨false, true⟩] := by
  rcases sound.wait_late point waits with ⟨err, rfl⟩
  have found : state.event.check = (.err, ⟨false, true⟩) := by
    rw [Event.check, err]
    rfl
  refine ⟨state.check true .listen, ?_, ?_, ?_⟩
  · rw [State.step, waits]
    rfl
  · rw [State.check, found]
    rfl
  · rw [State.check, found]
    rfl

/-- A late call of `notify` returns the error at its first access. -/
theorem Sound.late_notify (sound : state.Sound) {index : Nat}
    {point : NotifyPoint}
    (present : state.notifies[index]? = some ⟨point, true⟩) :
    ∃ next, state.step (.notify index) = some next ∧
      next.notifies = state.notifies.eraseIdx index ∧
      next.notified = state.notified ++ [⟨false, true⟩] := by
  rcases sound.notify_late point (List.mem_of_getElem? present) with
    ⟨err, rfl⟩
  have refused : state.event.set = (false, ⟨true, true⟩) := by
    rw [Event.set, err]
    rfl
  refine ⟨state.stepNotify index ⟨.set, true⟩, ?_, ?_, ?_⟩
  · rw [State.step, present]
    rfl
  · rw [State.stepNotify, refused]
    rfl
  · rw [State.stepNotify, refused]
    rfl

/--
The waiter never sleeps on a set flag, and a call that starts after an end is
gone returns the error, at once.
-/
structure Safe (state : State) : Prop where
  not_stuck : ¬ state.Stuck
  waited : ∀ answer ∈ state.waited, answer.late = true → answer.ok = false
  notified : ∀ answer ∈ state.notified, answer.late = true →
    answer.ok = false
  late_wait : ∀ point, state.wait = some ⟨point, true⟩ →
    ∃ next, state.step .wait = some next ∧ next.wait = none ∧
      next.waited = state.waited ++ [⟨false, true⟩]
  late_notify : ∀ index point,
    state.notifies[index]? = some ⟨point, true⟩ →
    ∃ next, state.step (.notify index) = some next ∧
      next.notifies = state.notifies.eraseIdx index ∧
      next.notified = state.notified ++ [⟨false, true⟩]

/-- Every interleaving is safe. -/
theorem safe_of_run (actions : List Action) (after : State)
    (ran : Runs.run State.step new actions = some after) : after.Safe := by
  have sound := Runs.invariant_of_step
    (fun _ _ _ sound stepped => Sound.step sound stepped) new_sound ran
  exact ⟨sound.not_stuck, sound.waited, sound.notified,
    fun _ waits => sound.late_wait waits,
    fun _ _ present => sound.late_notify present⟩

/--
A notification between the two checks of a call, a parked call that is
cancelled, and calls on both sides of the drop of the notifier.
-/
theorem safe_of_run_mixed :
    ∃ actions after, Runs.run State.step new actions = some after ∧
      after.waited = [⟨true, false⟩, ⟨false, false⟩, ⟨false, true⟩] ∧
      after.Safe := by
  have passed : (Runs.run State.step new
      [.startWait, .wait, .startNotify, .wait, .notify 0, .wait,
        .notify 0, .startWait, .wait, .wait, .wait, .cancel,
        .startWait, .dropNotifier, .wait, .wait, .notifier, .wait,
        .notifier, .startWait, .wait]).any (fun state =>
          Decidable.decide (state.waited =
            [⟨true, false⟩, ⟨false, false⟩, ⟨false, true⟩])) = true := by
    decide +kernel
  rcases Runs.exists_of_any passed with ⟨after, ran, waited⟩
  exact ⟨_, after, ran, of_decide_eq_true waited, safe_of_run _ after ran⟩

end State
end Waiting
end Thubo
