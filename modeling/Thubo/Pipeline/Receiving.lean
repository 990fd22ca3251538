import Thubo.Pipeline.Arrivals
import Thubo.Pipeline.Closing

/-!
# The receive pipeline always goes on

Every push ends and every pull returns or waits, whatever the other end has
done before.  A pull that waits without a notification has seen every ring
empty: no wake-up is lost on the receive side.
-/

namespace Thubo
namespace Rx
namespace Interleaved

variable {calm : Prop} {state after : State} {action : Action}

/-! ## Batches at reached positions -/

/-- Every batch that has not left is at a position that a reader reaches. -/
def Upright (state : State) : Prop :=
  ∀ p, ∀ batch ∈ held state p, batch.Sound

theorem mem_tailOf {p : Priority} {batch : Option ReadBatch}
    {member : ReadBatch} (found : member ∈ tailOf p batch) :
    batch = some member := by
  rw [tailOf, List.mem_filter, Option.mem_toList] at found
  exact found.1

/-- Rings that change in one place hold sound batches there. -/
theorem Upright.update (upright : Upright state) {p : Priority}
    {batches : List ReadBatch}
    (held_ : held after = Priority.update (held state) p batches)
    (sound : ∀ batch ∈ batches, batch.Sound) : Upright after := by
  intro q batch member
  rw [held_, Priority.update_apply] at member
  split at member
  · exact sound batch member
  · exact upright q batch member

theorem Change.upright (change : Change calm state after action)
    (solid : Solid state) (upright : Upright state) : Upright after := by
  cases change with
  | decode chunk fragMaxSize decoded nonempty ran held_ got =>
      intro p batch member
      rw [held_, List.mem_append] at member
      rcases member with old | new
      · exact upright p batch old
      · have sound := (decoded_sound solid.defrag nonempty ran).1
        cases decoded with
        | deliver delivered_ =>
            cases mem_tailOf new
            exact sound
        | reject error => cases mem_tailOf new
        | kept => cases mem_tailOf new
  | keep silent defrag held_ got =>
      rw [Upright, held_]
      exact upright
  | @next _ silent p batch changed rest t qos defrag before next held_ got =>
      refine upright.update held_ ?_
      have own := upright p
      rw [before] at own
      rw [List.forall_mem_cons] at own ⊢
      refine ⟨?_, own.2⟩
      have spec := ReadBatch.next_spec own.1
      split at spec
      · rw [spec] at next
        cases next
      · rcases spec with ⟨other, same, ran, _, _, _, sound, _⟩
        rw [ran] at next
        cases next
        exact sound
  | @remove _ silent p batch rest defrag before spent held_ got =>
      refine upright.update held_ fun member found => ?_
      apply upright p
      rw [before]
      exact List.mem_cons_of_mem _ found
  | @refuse _ silent p batch rest lossy defrag before held_ got =>
      refine upright.update held_ fun member found => ?_
      apply upright p
      rw [before]
      exact List.mem_append_left _ found

/-! ## Notifications -/

/-- The application is notified, or about to be. -/
def Told (state : State) : Prop :=
  state.canRecv.ok = true ∨ state.canRecv.err = true ∨
    state.reader = .notify

/-- The application will see what is in a ring, or is told of it. -/
def Heard (state : State) : Prop :=
  ∀ q, state.ring.queue q ≠ [] → Ahead state.app q ∨ Told state

/-- A scan that is to remove a batch has a nonempty ring still ahead. -/
def Finds (state : State) : AppPoint → Prop
  | .scan _ q => ∃ p, q.toNat ≤ p.toNat ∧ state.ring.queue p ≠ []
  | _ => True

/-- What every step of either end keeps. -/
structure Running (state : State) : Prop where
  kept : Kept False state
  upright : Upright state
  heard : Heard state
  finds : Finds state state.app

theorem running_init (exponent : Nat) (small : exponent ≤ 7) :
    Running (init exponent small) where
  kept := kept_init exponent small
  upright p batch member := by
    have empty : held (init exponent small) p = [] := by
      have holds : (init exponent small).ring.Holds fun _ => [] :=
        RingBuf.Spsc.holds_new exponent small
      rw [held, holds.queue_eq]
      rfl
    rw [empty] at member
    cases member
  heard q nonempty := Or.inl trivial
  finds := trivial

/-! ## Steps of the reader task -/

/-- What the reader task leaves to the application. -/
structure Leaves (state after : State) : Prop where
  app : after.app = state.app
  grown : ∀ p, state.ring.queue p <+: after.ring.queue p
  told : after.reader = .notify ∨
    (after.ring.queue = state.ring.queue ∧ (Told state → Told after))

/-- The rings stay, and the application is told what it was told. -/
theorem leaves_of_queue (app : after.app = state.app)
    (queue : after.ring.queue = state.ring.queue)
    (told : Told state → Told after) : Leaves state after where
  app := app
  grown p := by
    simp only [queue, List.prefix_rfl]
  told := Or.inr ⟨queue, told⟩

/-- The reader task has not been about to notify the application. -/
theorem leaves_of_event (app : after.app = state.app)
    (ring : after.ring.inner = state.ring.inner)
    (canRecv : after.canRecv = state.canRecv)
    (away : state.reader ≠ .notify) : Leaves state after := by
  refine leaves_of_queue app ?_ ?_
  · rw [RingBuf.Spsc.queue, RingBuf.Spsc.queue, ring]
  · intro told
    rw [Told, canRecv]
    rcases told with ok | err | notify
    · exact Or.inl ok
    · exact Or.inr (Or.inl err)
    · exact absurd notify away

theorem readerStep_leaves (kept : Kept False state)
    (taken : readerStep state = some after) : Leaves state after := by
  unfold readerStep at taken
  split at taken
  · rename_i batch point
    cases taken
    refine leaves_of_event rfl ?_ rfl (by simp [point])
    exact (kept.ring.isFull batch.qos.priority).2.1
  · rename_i batch point
    cases taken
    have room := kept.reader
    rw [point] at room
    have same := (holds_queue (kept.ring.insert room batch)).2
    refine ⟨rfl, fun p => ?_, Or.inl rfl⟩
    change _ <+: (state.ring.insert batch.qos.priority batch).queue p
    rw [same, Priority.update_apply]
    split
    · rename_i own
      rw [own]
      exact List.prefix_append _ _
    · exact List.prefix_refl _
  · rename_i batch point
    cases taken
    exact leaves_of_event rfl rfl rfl (by simp [point])
  · rename_i batch point
    cases taken
    exact leaves_of_event rfl rfl rfl (by simp [point])
  · cases taken
    exact leaves_of_queue rfl rfl fun _ => Or.inl rfl
  · cases taken

/-- The action is one of the application. -/
def Action.Pulls : Action → Prop
  | .call | .app | .leave => True
  | _ => False

theorem step_leaves (kept : Kept False state)
    (other : ¬ action.Pulls) (taken : step state action = some after) :
    Leaves state after := by
  cases action with
  | push chunk fragMaxSize =>
      simp only [step] at taken
      split at taken
      · rename_i point
        split at taken
        · cases taken
        · split at taken
          · cases taken
          · cases taken
            exact leaves_of_event rfl rfl rfl (by simp [point])
      · cases taken
  | reader => exact readerStep_leaves kept taken
  | deadline =>
      simp only [step] at taken
      split at taken
      · rename_i batch point
        cases taken
        exact leaves_of_event rfl rfl rfl (by simp [point])
      · cases taken
  | room =>
      simp only [step] at taken
      split at taken
      · rename_i batch point
        split at taken
        · cases taken
          exact leaves_of_event rfl rfl rfl (by simp [point])
        · cases taken
      · cases taken
  | expired =>
      simp only [step] at taken
      split at taken
      · rename_i batch point
        cases taken
        exact leaves_of_event rfl rfl rfl (by simp [point])
      · cases taken
  | drop =>
      simp only [step] at taken
      split at taken
      · cases taken
        exact leaves_of_queue rfl rfl fun _ => Or.inr (Or.inl rfl)
      · cases taken
        exact leaves_of_queue rfl rfl fun _ => Or.inr (Or.inl rfl)
      · cases taken
  | call | app | leave => exact absurd trivial other

theorem Leaves.heard (leaves : Leaves state after) (heard : Heard state) :
    Heard after := by
  intro q nonempty
  rcases leaves.told with notify | ⟨queue, told⟩
  · exact Or.inr (Or.inr (Or.inr notify))
  · rw [queue] at nonempty
    rw [leaves.app]
    exact (heard q nonempty).imp_right told

theorem Leaves.finds (leaves : Leaves state after)
    (finds : Finds state state.app) : Finds after after.app := by
  rw [leaves.app]
  cases point : state.app with
  | scan round q =>
      rw [point] at finds
      rcases finds with ⟨p, ahead, nonempty⟩
      rcases leaves.grown p with ⟨more, longer⟩
      refine ⟨p, ahead, ?_⟩
      rw [← longer]
      exact List.append_ne_nil_of_left_ne_nil nonempty more
  | _ => trivial

/-! ## Steps of the application -/

/-- The rings stay; only the point of the application matters. -/
theorem Heard.app_moves (heard : Heard state)
    (queue : after.ring.queue = state.ring.queue)
    (ahead : ∀ q, state.ring.queue q ≠ [] → Ahead state.app q →
      Ahead after.app q) (told : Told state → Told after) :
    Heard after := by
  intro q nonempty
  rw [queue] at nonempty
  exact (heard q nonempty).imp (ahead q nonempty) told

theorem heard_of_all (all : ∀ q, Ahead after.app q) : Heard after :=
  fun q _ => Or.inl (all q)

theorem Finds.of_other {point : AppPoint}
    (other : ∀ round q, point ≠ .scan round q) : Finds after point := by
  cases point with
  | scan round q => exact absurd rfl (other round q)
  | _ => trivial

theorem peek_running (running : Running state) {p : Priority}
    (point : state.app = .peek p) :
    Heard (peek state p) ∧ Finds (peek state p) (peek state p).app := by
  rcases running.kept.ring.isEmpty p with ⟨_, inner, _, empty, _⟩
  have queue : (peek state p).ring.queue = state.ring.queue := by
    simp only [peek, RingBuf.Spsc.queue, inner]
  constructor
  · refine running.heard.app_moves queue ?_ id
    intro q nonempty ahead
    rw [point] at ahead
    simp only [peek]
    split
    · rename_i reached
      have differs : p ≠ q := by
        rintro rfl
        exact nonempty (empty reached)
      rcases lower_of_lt (lt_of_le_of_ne ahead differs) with
        ⟨next, lower, stillAhead⟩
      simp only [nextOr, lower]
      exact stillAhead
    · trivial
  · apply Finds.of_other
    simp only [peek, nextOr]
    intro round q
    split
    · split <;> simp
    · simp

theorem scan_running (running : Running state) {round : Round}
    {q : Priority} (point : state.app = .scan round q) :
    Heard (scan state round q) ∧
      Finds (scan state round q) (scan state round q).app ∧
        ∀ other, (scan state round q).app ≠ .notify other := by
  rcases running.kept.ring.isEmpty q with ⟨_, inner, _, empty, _⟩
  have queue : (scan state round q).ring.queue = state.ring.queue := by
    simp only [scan, RingBuf.Spsc.queue, inner]
  have finds := running.finds
  rw [point] at finds
  rcases finds with ⟨p, ahead, nonempty⟩
  -- the next ring, when this one is empty
  have next : (state.ring.isEmpty q).1 = true →
      ∃ lower, q.lower = some lower ∧ lower.toNat ≤ p.toNat := by
    intro reached
    apply lower_of_lt (lt_of_le_of_ne ahead _)
    rintro rfl
    exact nonempty (empty reached)
  refine ⟨?_, ?_, ?_⟩
  · apply heard_of_all
    intro r
    simp only [scan, nextOr]
    split
    · split <;> trivial
    · trivial
  · have same : (scan state round q).app =
        if (state.ring.isEmpty q).1 then
          nextOr q (.scan round) (.notify round)
        else
          .take round q := rfl
    rw [same]
    split
    · rename_i reached
      rcases next reached with ⟨lower, found, stillAhead⟩
      simp only [nextOr, found]
      exact ⟨p, stillAhead, by rwa [queue]⟩
    · trivial
  · intro other
    simp only [scan]
    split
    · rename_i reached
      rcases next reached with ⟨lower, found, _⟩
      simp [nextOr, found]
    · simp

theorem inspect_running {id : BatchId} {batch : ReadBatch}
    (nonempty : state.ring.queue id.ring ≠ [])
    (taken : inspect state id batch = some after) :
    Heard after ∧ Finds after after.app := by
  unfold inspect at taken
  dsimp only at taken
  split at taken
  · cases taken
    exact ⟨heard_of_all fun _ => trivial,
      ⟨id.ring, Nat.zero_le _, nonempty⟩⟩
  · split at taken
    · cases taken
    · cases taken
      exact ⟨heard_of_all fun _ => trivial,
        ⟨id.ring, Nat.zero_le _, nonempty⟩⟩
    · cases taken
      exact ⟨heard_of_all fun _ => trivial, trivial⟩

theorem checkEvent_running (running : Running state) {unset : AppPoint}
    (away : ∀ q, ¬ Ahead state.app q)
    (other : ∀ round q, unset ≠ .scan round q) :
    Heard (checkEvent state unset) ∧
      Finds (checkEvent state unset) (checkEvent state unset).app := by
  constructor
  · intro q nonempty
    rcases (running.heard q nonempty).resolve_left (away q) with
      ok | err | notify
    · cases failed : state.canRecv.err with
      | false =>
          left
          simp only [checkEvent, Event.check, failed, ok]
          exact Nat.zero_le _
      | true =>
          right
          right
          left
          simpa only [checkEvent, err_check] using failed
    · right
      right
      left
      simpa only [checkEvent, err_check] using err
    · exact Or.inr (Or.inr (Or.inr notify))
  · apply Finds.of_other
    simp only [checkEvent]
    intro round q
    split
    · simp
    · exact other round q
    · simp

/-- What a step of the application leaves. -/
theorem appStep_running (running : Running state)
    (taken : appStep state = some after) :
    Heard after ∧ Finds after after.app := by
  unfold appStep at taken
  split at taken
  · rename_i p point
    cases taken
    exact peek_running running point
  · rename_i id point
    have nonempty := running.kept.app
    rw [point] at nonempty
    split at taken
    · cases taken
    · exact inspect_running nonempty taken
  · rename_i round q point
    cases taken
    have stays := scan_running running point
    exact ⟨stays.1, stays.2.1⟩
  · split at taken
    · cases taken
    · cases taken
      exact ⟨heard_of_all fun _ => trivial, trivial⟩
  · cases taken
    exact ⟨heard_of_all fun q => Nat.zero_le _, trivial⟩
  · rename_i point
    cases taken
    refine ⟨running.heard.app_moves rfl ?_ id, trivial⟩
    intro q _ ahead
    rw [point] at ahead
    exact ahead
  · rename_i point
    cases taken
    exact checkEvent_running running (by simp [point, Ahead]) (by simp)
  · rename_i point
    cases taken
    exact checkEvent_running running (by simp [point, Ahead]) (by simp)
  · rename_i point
    cases taken
    refine ⟨running.heard.app_moves rfl ?_ id, trivial⟩
    intro q _ ahead
    rw [point] at ahead
    exact ahead
  · cases taken
  · cases taken

theorem Running.step (running : Running state)
    (taken : step state action = some after) : Running after := by
  have stepped := step_kept running.kept (fun impossible =>
    impossible.elim) taken
  have upright := stepped.2.upright running.kept.solid running.upright
  by_cases pulls : action.Pulls
  · have stays : Heard after ∧ Finds after after.app := by
      cases action with
      | app => exact appStep_running running taken
      | call =>
          simp only [Interleaved.step] at taken
          split at taken <;> cases taken <;>
            exact ⟨heard_of_all fun q => Nat.zero_le _, trivial⟩
      | leave =>
          simp only [Interleaved.step] at taken
          split at taken <;> cases taken <;>
            exact ⟨heard_of_all fun q => trivial, trivial⟩
      | _ => cases pulls
    exact ⟨stepped.1, upright, stays.1, stays.2⟩
  · have leaves := step_leaves running.kept pulls taken
    exact ⟨stepped.1, upright, leaves.heard running.heard,
      leaves.finds running.finds⟩

theorem running_of_run {exponent : Nat} {small : exponent ≤ 7}
    {actions : List Action}
    (ran : Runs.run step (init exponent small) actions = some state) :
    Running state :=
  Runs.invariant_of_step
    (fun _ _ _ (running : Running _) taken => running.step taken)
    (running_init exponent small) ran

/-! ## How far both ends are from their end -/

/-- The steps that a push still takes when nobody makes room for it. -/
def ReaderPoint.turns : ReaderPoint → Nat
  | .waiting _ => 5
  | .offer _ => 4
  | .full _ => 3
  | .insert _ | .timed _ => 2
  | .notify => 1
  | .idle | .gone => 0

/-- The steps that a pull still takes before it removes a batch. -/
def AppPoint.turns : AppPoint → Nat
  | .notify _ => 15
  | .peek p => 14 - p.toNat
  | .peeked _ => 10
  | .scan _ q => 9 - q.toNat
  | .take _ _ => 5
  | .empty => 3
  | .check => 2
  | .listening => 1
  | .idle | .parked | .closed => 0

/-- The application has been notified while it waits. -/
def wakes (state : State) : Bool :=
  state.app == .parked && (state.canRecv.ok || state.canRecv.err)

/-- The batches in the rings. -/
def stock (state : State) : Nat :=
  Priority.total fun p => (state.ring.queue p).length

/-- How far the application is from its end. -/
def pullTurns (state : State) : Nat :=
  20 * stock state + state.app.turns + 20 * state.canRecv.ok.toNat +
    3 * (wakes state).toNat

/-- A step of either end that begins nothing and drops nothing. -/
def Action.Internal : Action → Prop
  | .reader | .deadline | .expired | .app => True
  | _ => False

/-! ## The reader task goes on -/

/-- The push goes on, or its timer or its deadline ends it. -/
theorem reader_closer (busy : state.reader ≠ .idle)
    (present : state.reader ≠ .gone) :
    ∃ action after, Action.Internal action ∧
      step state action = some after ∧
        after.reader.turns < state.reader.turns := by
  cases point : state.reader with
  | idle => exact absurd point busy
  | gone => exact absurd point present
  | offer batch =>
      refine ⟨.reader, offer state batch, trivial,
        by rw [step, readerStep, point], ?_⟩
      simp only [offer]
      split
      · unfold giveBack
        split <;> simp [ReaderPoint.turns]
      · simp [ReaderPoint.turns]
  | insert batch =>
      exact ⟨.reader, insert state batch, trivial,
        by rw [step, readerStep, point], Nat.lt_succ_self 1⟩
  | full batch =>
      refine ⟨.reader, _, trivial, by rw [step, readerStep, point], ?_⟩
      dsimp only
      split <;> simp [ReaderPoint.turns]
  | timed batch =>
      exact ⟨.deadline, { state with reader := .idle }, trivial,
        by rw [step, point], Nat.zero_lt_succ 1⟩
  | waiting batch =>
      refine ⟨.expired, _, trivial, by rw [step, point], ?_⟩
      dsimp only [afterTimeout]
      split <;> simp [ReaderPoint.turns]
  | notify =>
      exact ⟨.reader, { state with
          canRecv := state.canRecv.set.2
          reader := .idle }, trivial,
        by rw [step, readerStep, point], Nat.zero_lt_one⟩

/-! ## The application goes on -/

/-- The rings stay and the point gets closer. -/
theorem pullTurns_of_point (queue : after.ring.queue = state.ring.queue)
    (canRecv : after.canRecv = state.canRecv)
    (waits : after.app ≠ .parked)
    (less : after.app.turns < state.app.turns) :
    pullTurns after < pullTurns state := by
  have quiet : wakes after = false := by
    rw [wakes, beq_eq_false_iff_ne.2 waits, Bool.false_and]
  rw [pullTurns, pullTurns, stock, stock, queue, canRecv, quiet]
  simp only [Bool.toNat_false]
  omega

theorem nextOr_turns {p : Priority} {next : Priority → AppPoint}
    {last : AppPoint} {limit : Nat}
    (points : ∀ q, p.lower = some q → (next q).turns < limit)
    (final : p.lower = none → last.turns < limit) :
    (nextOr p next last).turns < limit := by
  unfold nextOr
  split
  · rename_i q lower
    exact points q lower
  · rename_i none
    exact final none

theorem peek_turns (running : Running state) {p : Priority}
    (point : state.app = .peek p) :
    pullTurns (peek state p) < pullTurns state := by
  rcases running.kept.ring.isEmpty p with ⟨_, inner, _, _, _⟩
  have queue : (peek state p).ring.queue = state.ring.queue := by
    simp only [peek, RingBuf.Spsc.queue, inner]
  apply pullTurns_of_point queue rfl
  · simp only [peek, nextOr]
    split
    · split <;> simp
    · simp
  · rw [point]
    simp only [peek]
    split
    · apply nextOr_turns
      · intro q lower
        cases p <;> cases lower <;> simp [AppPoint.turns, Priority.toNat]
      · intro none
        cases p <;> simp [AppPoint.turns, Priority.toNat]
    · cases p <;> simp [AppPoint.turns, Priority.toNat]

theorem scan_turns (running : Running state) {round : Round} {q : Priority}
    (point : state.app = .scan round q) :
    pullTurns (scan state round q) < pullTurns state := by
  rcases running.kept.ring.isEmpty q with ⟨_, inner, _, _, _⟩
  have queue : (scan state round q).ring.queue = state.ring.queue := by
    simp only [scan, RingBuf.Spsc.queue, inner]
  have never := (scan_running running point).2.2
  apply pullTurns_of_point queue rfl
  · simp only [scan, nextOr]
    split
    · split <;> simp
    · simp
  · rw [point]
    have same : (scan state round q).app =
        if (state.ring.isEmpty q).1 then
          nextOr q (.scan round) (.notify round)
        else
          .take round q := rfl
    rw [same] at never ⊢
    split
    · rename_i reached
      rw [if_pos reached] at never
      apply nextOr_turns
      · intro r lower
        cases q <;> cases lower <;> simp [AppPoint.turns, Priority.toNat]
      · intro none
        simp only [nextOr, none] at never
        exact absurd rfl (never round)
    · cases q <;> simp [AppPoint.turns, Priority.toNat]

/-- A batch is removed from a ring. -/
theorem take_turns (running : Running state) {round : Round} {q : Priority}
    (point : state.app = .take round q) {batch : ReadBatch}
    (front : state.ring.front q = some batch) :
    pullTurns (take state round q batch) < pullTurns state := by
  rcases take_kept running.kept point front with
    ⟨rest, queue, _, _, removed⟩
  have fewer := Priority.total_update state.ring.queue q rest
    fun _ batches => batches.length
  rw [queue, List.length_cons] at fewer
  have after_ : stock (take state round q batch) =
      Priority.total fun p =>
        (Priority.update state.ring.queue q rest p).length := by
    rw [stock, removed]
  have quiet : wakes (take state round q batch) = false := rfl
  rw [pullTurns, pullTurns, after_, quiet, point]
  show 20 * _ + 15 + 20 * state.canRecv.ok.toNat + 3 * 0 <
    20 * stock state + 5 + _ + _
  rw [stock]
  omega

theorem inspect_exists {id : BatchId} {batch : ReadBatch}
    (sound : batch.Sound) : ∃ after, inspect state id batch = some after := by
  unfold inspect
  dsimp only
  split
  · exact ⟨_, rfl⟩
  · have spec := ReadBatch.next_spec sound
    split at spec
    · rw [spec]
      exact ⟨_, rfl⟩
    · rcases spec with ⟨t, changed, ran, _⟩
      rw [ran]
      exact ⟨_, rfl⟩

theorem inspect_turns (running : Running state) {id : BatchId}
    (point : state.app = .peeked id) {batch : ReadBatch}
    {rest : List ReadBatch}
    (queue : state.ring.queue id.ring = batch :: rest)
    (taken : inspect state id batch = some after) :
    pullTurns after < pullTurns state := by
  unfold inspect at taken
  dsimp only at taken
  split at taken
  · cases taken
    refine pullTurns_of_point rfl rfl (by simp) ?_
    rw [point]
    exact Nat.lt_succ_self 9
  · split at taken
    · cases taken
    · cases taken
      refine pullTurns_of_point rfl rfl (by simp) ?_
      rw [point]
      exact Nat.lt_succ_self 9
    · rename_i t qos changed next
      cases taken
      have same := (holds_queue
        (running.kept.ring.setFront queue changed)).2
      have equal := Priority.total_update state.ring.queue id.ring
        (changed :: rest) fun _ batches => batches.length
      rw [queue, List.length_cons, List.length_cons] at equal
      have after_ : stock { state with
          ring := state.ring.setFront id.ring changed } =
            Priority.total fun p => (Priority.update state.ring.queue
              id.ring (changed :: rest) p).length := by
        rw [stock, same]
      show 20 * stock { state with
          ring := state.ring.setFront id.ring changed } + 0 +
        20 * state.canRecv.ok.toNat + 3 * 0 < _
      rw [after_, pullTurns, point, stock]
      show _ < _ + 10 + _ + _
      omega

/-- A check of the event, after which the application may begin to wait. -/
theorem checkEvent_turns {unset : AppPoint}
    (waits : state.app ≠ .parked) (less : unset.turns < state.app.turns) :
    pullTurns (checkEvent state unset) < pullTurns state := by
  have before : pullTurns state = 20 * stock state + state.app.turns +
      20 * state.canRecv.ok.toNat := by
    rw [pullTurns, wakes, beq_eq_false_iff_ne.2 waits, Bool.false_and]
    rfl
  have quiet : wakes (checkEvent state unset) =
      ((checkEvent state unset).app == .parked &&
        (checkEvent state unset).canRecv.err) := by
    have cleared : (checkEvent state unset).canRecv.ok = false := by
      simp only [checkEvent, Event.check]
      split
      · rfl
      · split <;> rfl
    rw [wakes, cleared, Bool.false_or]
  have later : pullTurns (checkEvent state unset) =
      20 * stock state + (checkEvent state unset).app.turns +
        3 * (wakes (checkEvent state unset)).toNat := by
    have cleared : (checkEvent state unset).canRecv.ok = false := by
      simp only [checkEvent, Event.check]
      split
      · rfl
      · split <;> rfl
    rw [pullTurns, cleared]
    rfl
  rw [before, later, quiet]
  cases failed : state.canRecv.err with
  | true =>
      have closed : (checkEvent state unset).app = .closed := by
        simp only [checkEvent, Event.check, failed, if_true]
      rw [closed]
      show 20 * stock state + 0 + 3 * 0 < _
      omega
  | false =>
      have kept : (checkEvent state unset).canRecv.err = false := by
        simpa only [checkEvent, err_check] using failed
      rw [kept, Bool.and_false]
      cases ok : state.canRecv.ok with
      | true =>
          have again : (checkEvent state unset).app = .peek .high := by
            simp [checkEvent, Event.check, failed, ok]
          rw [again]
          show 20 * stock state + 14 + 3 * 0 < _ + _ + 20
          omega
      | false =>
          have goes : (checkEvent state unset).app = unset := by
            simp [checkEvent, Event.check, failed, ok]
          rw [goes]
          show _ + _ + 3 * 0 < _ + _ + 20 * 0
          omega

/-- The application waits for a notification, or has nothing to do. -/
def Rests (state : State) : Prop :=
  state.app = .idle ∨ state.app = .closed ∨
    (state.app = .parked ∧ wakes state = false)

/-- The pull goes on until it returns or waits. -/
theorem Running.app_closer (running : Running state)
    (busy : ¬ Rests state) :
    ∃ after, appStep state = some after ∧
      pullTurns after < pullTurns state := by
  cases point : state.app with
  | idle => exact absurd (Or.inl point) busy
  | closed => exact absurd (Or.inr (Or.inl point)) busy
  | peek p =>
      exact ⟨peek state p, by rw [appStep, point],
        peek_turns running point⟩
  | peeked id =>
      have nonempty := running.kept.app
      rw [point] at nonempty
      rcases List.exists_cons_of_ne_nil nonempty with ⟨batch, rest, queue⟩
      have sound : batch.Sound := by
        apply running.upright id.ring
        rw [held_cons queue]
        exact List.mem_cons_self ..
      have inspects : ∃ after, inspect state id batch = some after :=
        inspect_exists sound
      rcases inspects with ⟨after, taken⟩
      refine ⟨after, ?_, inspect_turns running point queue taken⟩
      rw [appStep, point]
      dsimp only
      rw [running.kept.ring.front queue]
      exact taken
  | scan round q =>
      exact ⟨scan state round q, by rw [appStep, point],
        scan_turns running point⟩
  | take round q =>
      have facts := running.kept.app
      rw [point] at facts
      rcases List.exists_cons_of_ne_nil
        (running.kept.ring.nonempty facts.1) with ⟨batch, rest, queue⟩
      have front := running.kept.ring.front queue
      refine ⟨take state round q batch, ?_,
        take_turns running point front⟩
      rw [appStep, point]
      dsimp only
      rw [front]
  | notify round =>
      refine ⟨_, by rw [appStep, point], ?_⟩
      refine pullTurns_of_point rfl rfl (by simp) ?_
      rw [point]
      exact Nat.lt_succ_self 14
  | empty =>
      refine ⟨_, by rw [appStep, point], ?_⟩
      refine pullTurns_of_point rfl rfl (by simp) ?_
      rw [point]
      exact Nat.lt_succ_self 2
  | check =>
      exact ⟨_, by rw [appStep, point], checkEvent_turns
        (by simp [point]) (by rw [point]; exact Nat.lt_succ_self 1)⟩
  | listening =>
      exact ⟨_, by rw [appStep, point], checkEvent_turns
        (by simp [point]) (by rw [point]; exact Nat.zero_lt_one)⟩
  | parked =>
      have notified : wakes state = true := by
        rw [← Bool.not_eq_false]
        exact fun quiet => busy (Or.inr (Or.inr ⟨point, quiet⟩))
      refine ⟨{ state with app := .check }, by rw [appStep, point], ?_⟩
      rw [pullTurns, pullTurns, notified, point]
      show 20 * stock state + 2 + 20 * state.canRecv.ok.toNat + 3 * 0 <
        20 * stock state + 0 + 20 * state.canRecv.ok.toNat + 3 * 1
      omega

/-! ## Everything ends -/

/-- No call is going on, but for a pull that waits and has left nothing. -/
structure Ended (state : State) : Prop where
  reader : state.reader = .idle ∨ state.reader = .gone
  app : state.app = .idle ∨ state.app = .closed ∨
    (state.app = .parked ∧ state.canRecv = ⟨false, false⟩ ∧
      ∀ p, state.ring.queue p = [])

/-- A pull that rests has left nothing in a ring. -/
theorem Running.ended (running : Running state)
    (reader : state.reader = .idle ∨ state.reader = .gone)
    (rests : Rests state) : Ended state := by
  refine ⟨reader, rests.imp_right fun other =>
    other.imp_right fun ⟨parked, quiet⟩ => ?_⟩
  have unset : state.canRecv = ⟨false, false⟩ := by
    rw [wakes, parked] at quiet
    cases event : state.canRecv with
    | mk ok err =>
        rw [event] at quiet
        cases ok <;> cases err <;> first | rfl | cases quiet
  refine ⟨parked, unset, fun p => ?_⟩
  by_contra nonempty
  rcases running.heard p nonempty with ahead | ok | err | notify
  · rw [parked] at ahead
    exact ahead
  · rw [unset] at ok
    cases ok
  · rw [unset] at err
    cases err
  · rcases reader with point | point <;> cases point.symm.trans notify

/-- Some step of the reader task, or else of the application, is possible. -/
theorem Running.closer (running : Running state)
    (pending : ¬ Ended state) :
    ∃ action after, Action.Internal action ∧
      Interleaved.step state action = some after ∧ Running after ∧
        Prod.Lex (· < ·) (· < ·)
          (after.reader.turns, pullTurns after)
          (state.reader.turns, pullTurns state) := by
  by_cases reader : state.reader = .idle ∨ state.reader = .gone
  · have busy : ¬ Rests state :=
      fun rests => pending (running.ended reader rests)
    rcases running.app_closer busy with ⟨after, taken, less⟩
    have stepped : Interleaved.step state .app = some after := taken
    refine ⟨.app, after, trivial, stepped, running.step stepped, ?_⟩
    rw [(appStep_reader taken).2]
    exact .right _ less
  · rw [not_or] at reader
    rcases reader_closer reader.1 reader.2 with
      ⟨action, after, internal, taken, less⟩
    exact ⟨action, after, internal, taken, running.step taken,
      .left _ _ less⟩

/--
From every state that the receive pipeline reaches, the push in progress
ends, and the pull in progress returns a message, finds the channel closed,
or waits without a notification while every ring is empty.
-/
theorem ends_of_run {exponent : Nat} {small : exponent ≤ 7}
    {actions : List Action}
    (ran : Runs.run step (init exponent small) actions = some state) :
    ∃ more final, (∀ action ∈ more, Action.Internal action) ∧
      Runs.run step state more = some final ∧ Ended final := by
  rcases Runs.reaches_of_rank (Prod.lex Nat.lt_wfRel Nat.lt_wfRel).wf
      (fun state : State => (state.reader.turns, pullTurns state)) Running
      Ended (fun _ running pending => running.closer pending)
      (running_of_run ran) with
    ⟨more, final, internal, went, _, ended⟩
  exact ⟨more, final, internal, went, ended⟩

/-- A push waits for room in the middle of a pull. -/
theorem ends_of_run_waiting :
    ∃ state, (state.app = .peek .high ∧ state.reader ≠ .idle) ∧
      ∃ more final, (∀ action ∈ more, Action.Internal action) ∧
        Runs.run step state more = some final ∧ Ended final := by
  have passed : (Runs.run step (init 0 (by decide))
      (arrival [1, 1, 0, 1, 42] ++
        [.push (Chunk.ofBuf [1, 2, 0, 1, 43]) 100, .reader, .reader,
          .call])).any (fun state =>
          state.app = .peek .high ∧ state.reader ≠ .idle) = true := by
    decide +kernel
  rcases Runs.exists_of_any passed with ⟨state, ran, busy⟩
  exact ⟨state, by simpa using busy, ends_of_run ran⟩

end Interleaved
end Rx
end Thubo
