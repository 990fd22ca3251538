import Thubo.Pipeline.Ledger

/-!
# When a pull reports that the channel is closed

The drop of the reader task's end overwrites a pending notification, so the
application finds the channel closed as soon as it comes to check the event.
This is right when the rings hold nothing, or when the scan the application
is in has a nonempty ring still ahead.
-/

namespace Thubo
namespace Rx
namespace Interleaved

/-- No ring holds an undelivered message. -/
def Quiet (state : State) : Prop :=
  ∀ p, ∀ batch ∈ state.ring.queue p, Parser.payload batch.rest = none

/-- The scan that the application is in has this ring still ahead. -/
def Ahead : AppPoint → Priority → Prop
  | .peek p, q => p.toNat ≤ q.toNat
  | .empty, _ | .check, _ | .listening, _ | .parked, _ | .closed, _ => False
  | _, _ => True

/-- Every message in a ring will be seen before the event is checked. -/
def Watched (state : State) : Prop :=
  Quiet state ∨ ∃ q, state.ring.queue q ≠ [] ∧ Ahead state.app q

/-- A step of a run in which neither race happens. -/
def Orderly (state : State) (action : Action) : Prop :=
  Unraced state action ∧ (action = .drop → Watched state)

/-! ## The invariant -/

/-- Once the reader task is gone, the application does not miss a batch. -/
structure Attended (state : State) : Prop where
  /-- Only the drop of the reader task's end is an error. -/
  err : state.canRecv.err = true → state.reader = .gone
  closed : state.app = .closed → state.reader = .gone
  watched : state.reader = .gone → Watched state

variable {state after : State}

theorem attended_init (exponent : Nat) (small : exponent ≤ 7) :
    Attended (init exponent small) where
  err impossible := by cases impossible
  closed impossible := by cases impossible
  watched impossible := by cases impossible

/-- With every ring ahead, nothing is missed. -/
theorem watched_of_all (all : ∀ q, Ahead state.app q) : Watched state := by
  by_cases nonempty : ∃ q, state.ring.queue q ≠ []
  · rcases nonempty with ⟨q, nonempty⟩
    exact Or.inr ⟨q, nonempty, all q⟩
  · left
    intro p batch member
    have empty : state.ring.queue p = [] := by
      by_contra other
      exact nonempty ⟨p, other⟩
    rw [empty] at member
    cases member

/-- While the rings stay, only the point of the application matters. -/
theorem Watched.keep (watched : Watched state)
    (queue : after.ring.queue = state.ring.queue)
    (ahead : ∀ q, state.ring.queue q ≠ [] → Ahead state.app q →
      Ahead after.app q) : Watched after := by
  rcases watched with quiet | ⟨q, nonempty, ahead'⟩
  · left
    rw [Quiet, queue]
    exact quiet
  · right
    refine ⟨q, ?_, ahead q nonempty ahead'⟩
    rwa [queue]

/-- The reader task does not go on once it is gone. -/
theorem attended_of_not_gone (err : after.canRecv.err = false)
    (open_ : after.app ≠ .closed) (present : after.reader ≠ .gone) :
    Attended after where
  err impossible := by
    rw [err] at impossible
    cases impossible
  closed impossible := absurd impossible open_
  watched impossible := absurd impossible present

/-! ## Steps of the reader task -/

theorem start_ne_gone (decoded : Decoded) : start decoded ≠ .gone := by
  cases decoded <;> rintro ⟨⟩

theorem giveBack_ne_gone (batch : ReadBatch) : giveBack batch ≠ .gone := by
  unfold giveBack
  split <;> rintro ⟨⟩

theorem afterTimeout_ne_gone (batch : ReadBatch) :
    afterTimeout batch ≠ .gone := by
  unfold afterTimeout
  split <;> rintro ⟨⟩

/-- While the reader task is there, the channel is open. -/
theorem Attended.present (holds : Attended state)
    (present : state.reader ≠ .gone) :
    state.canRecv.err = false ∧ state.app ≠ .closed := by
  constructor
  · apply Bool.eq_false_iff.2
    exact fun err => present (holds.err err)
  · exact fun closed => present (holds.closed closed)

/-- A step of the reader task short of the drop. -/
theorem readerStep_attended (holds : Attended state)
    (taken : readerStep state = some after) : Attended after := by
  unfold readerStep at taken
  split at taken
  · rename_i batch point
    rcases holds.present (by rw [point]; rintro ⟨⟩) with ⟨err, open_⟩
    cases taken
    refine attended_of_not_gone err open_ ?_
    simp only [offer]
    split
    · exact giveBack_ne_gone _
    · rintro ⟨⟩
  · rename_i point
    rcases holds.present (by rw [point]; rintro ⟨⟩) with ⟨err, open_⟩
    cases taken
    exact attended_of_not_gone err open_ (by rintro ⟨⟩)
  · rename_i point
    rcases holds.present (by rw [point]; rintro ⟨⟩) with ⟨err, open_⟩
    cases taken
    refine attended_of_not_gone err open_ ?_
    dsimp only
    split <;> rintro ⟨⟩
  · rename_i point
    rcases holds.present (by rw [point]; rintro ⟨⟩) with ⟨err, open_⟩
    cases taken
    exact attended_of_not_gone err open_ (by rintro ⟨⟩)
  · rename_i point
    rcases holds.present (by rw [point]; rintro ⟨⟩) with ⟨err, open_⟩
    cases taken
    exact attended_of_not_gone err open_ (by rintro ⟨⟩)
  · cases taken

/-! ## Steps of the application -/

/-- The scan goes on behind an empty ring. -/
theorem peek_watched (holds : Invariant state state.ring.queue)
    {p : Priority} (point : state.app = .peek p)
    (watched : Watched state) : Watched (peek state p) := by
  rcases holds.ring.isEmpty p with ⟨_, inner, _, empty, _⟩
  have queue : (peek state p).ring.queue = state.ring.queue := by
    simp only [peek, RingBuf.Spsc.queue, inner]
  apply watched.keep queue
  intro q nonempty ahead
  rw [point] at ahead
  simp only [peek]
  split
  · rename_i reached
    have differs : p ≠ q := by
      rintro rfl
      exact nonempty (empty reached)
    rcases lower_of_lt (lt_of_le_of_ne ahead differs) with
      ⟨next, lower, stillAhead⟩
    simp only [nextOr, lower]
    exact stillAhead
  · trivial

/-- No step of the application leaves a nonempty ring behind. -/
theorem appStep_watched (holds : Invariant state state.ring.queue)
    (watched : Watched state) (taken : appStep state = some after) :
    Watched after := by
  unfold appStep at taken
  split at taken
  · rename_i point
    cases taken
    exact peek_watched holds point watched
  · split at taken
    · cases taken
    · unfold inspect at taken
      dsimp only at taken
      split at taken
      · cases taken
        exact watched_of_all fun _ => trivial
      · split at taken
        · cases taken
        · cases taken
          exact watched_of_all fun _ => trivial
        · cases taken
          exact watched_of_all fun _ => trivial
  · cases taken
    apply watched_of_all
    intro q
    simp only [scan, nextOr]
    split
    · split <;> trivial
    · trivial
  · split at taken
    · cases taken
    · cases taken
      exact watched_of_all fun _ => trivial
  · cases taken
    exact watched_of_all fun q => Nat.zero_le _
  · rename_i point
    cases taken
    refine watched.keep rfl fun q _ ahead => ?_
    rw [point] at ahead
    exact ahead
  · rename_i point
    cases taken
    refine watched.keep rfl fun q _ ahead => ?_
    rw [point] at ahead
    exact ahead.elim
  · rename_i point
    cases taken
    refine watched.keep rfl fun q _ ahead => ?_
    rw [point] at ahead
    exact ahead.elim
  · rename_i point
    cases taken
    refine watched.keep rfl fun q _ ahead => ?_
    rw [point] at ahead
    exact ahead
  · cases taken
  · cases taken

/-- A check reports an error only when the error bit is set. -/
theorem checkEvent_closed (unset : AppPoint) (other : unset ≠ .closed)
    (closed : (checkEvent state unset).app = .closed) :
    state.canRecv.err = true := by
  simp only [checkEvent, Event.check] at closed
  by_contra absent
  rw [Bool.not_eq_true] at absent
  rw [absent, if_neg Bool.false_ne_true] at closed
  split at closed
  · rename_i found
    split at found <;> cases found
    cases closed
  · exact other closed
  · rename_i found
    split at found <;> cases found

theorem nextOr_ne_closed {p : Priority} {next : Priority → AppPoint}
    {last : AppPoint} (continues : ∀ q, next q ≠ .closed)
    (ends : last ≠ .closed) : nextOr p next last ≠ .closed := by
  unfold nextOr
  split
  · exact continues _
  · exact ends

/-- The application ends a pull with an error only on the error bit. -/
theorem appStep_closed (taken : appStep state = some after)
    (closed : after.app = .closed) : state.canRecv.err = true := by
  unfold appStep at taken
  split at taken
  · cases taken
    simp only [peek] at closed
    split at closed
    · exact absurd closed (nextOr_ne_closed (by rintro _ ⟨⟩) (by rintro ⟨⟩))
    · cases closed
  · split at taken
    · cases taken
    · unfold inspect at taken
      dsimp only at taken
      split at taken
      · cases taken
        cases closed
      · split at taken <;> cases taken <;> cases closed
  · cases taken
    simp only [scan] at closed
    split at closed
    · exact absurd closed (nextOr_ne_closed (by rintro _ ⟨⟩) (by rintro ⟨⟩))
    · cases closed
  · split at taken <;> cases taken
    cases closed
  · cases taken
    cases closed
  · cases taken
    cases closed
  · cases taken
    exact checkEvent_closed .listening (by rintro ⟨⟩) closed
  · cases taken
    exact checkEvent_closed .parked (by rintro ⟨⟩) closed
  · cases taken
    cases closed
  · cases taken
  · cases taken

/-- Checking an event keeps its error bit. -/
theorem err_check (event : Event) : event.check.2.err = event.err := by
  unfold Event.check
  dsimp only
  split
  · rfl
  · split <;> rfl

theorem appStep_err (taken : appStep state = some after) :
    after.canRecv.err = state.canRecv.err := by
  unfold appStep at taken
  split at taken
  · cases taken
    rfl
  · split at taken
    · cases taken
    · unfold inspect at taken
      dsimp only at taken
      split at taken
      · cases taken
        rfl
      · split at taken <;> cases taken <;> rfl
  · cases taken
    rfl
  · split at taken <;> cases taken
    rfl
  · cases taken
    rfl
  · cases taken
    rfl
  · cases taken
    exact err_check _
  · cases taken
    exact err_check _
  · cases taken
    rfl
  · cases taken
  · cases taken

/-! ## Runs -/

/-- Every step keeps the application attentive. -/
theorem step_attended {action : Action}
    (holds : Invariant state state.ring.queue) (attended : Attended state)
    (dropped : action = .drop → Watched state)
    (taken : step state action = some after) : Attended after := by
  cases action with
  | push chunk fragMaxSize =>
      simp only [step] at taken
      split at taken
      · rename_i point
        rcases attended.present (by rw [point]; rintro ⟨⟩) with
          ⟨err, open_⟩
        split at taken
        · cases taken
        · split at taken
          · cases taken
          · cases taken
            exact attended_of_not_gone err open_ (start_ne_gone _)
      · cases taken
  | reader => exact readerStep_attended attended taken
  | deadline =>
      simp only [step] at taken
      split at taken
      · rename_i point
        rcases attended.present (by rw [point]; rintro ⟨⟩) with
          ⟨err, open_⟩
        cases taken
        exact attended_of_not_gone err open_ (by rintro ⟨⟩)
      · cases taken
  | room =>
      simp only [step] at taken
      split at taken
      · rename_i point
        rcases attended.present (by rw [point]; rintro ⟨⟩) with
          ⟨err, open_⟩
        split at taken
        · cases taken
          exact attended_of_not_gone err open_ (by rintro ⟨⟩)
        · cases taken
      · cases taken
  | expired =>
      simp only [step] at taken
      split at taken
      · rename_i point
        rcases attended.present (by rw [point]; rintro ⟨⟩) with
          ⟨err, open_⟩
        cases taken
        exact attended_of_not_gone err open_ (afterTimeout_ne_gone _)
      · cases taken
  | drop =>
      have watched := dropped rfl
      simp only [step] at taken
      split at taken
      · cases taken
        exact ⟨fun _ => rfl, fun _ => rfl, fun _ => watched⟩
      · cases taken
        exact ⟨fun _ => rfl, fun _ => rfl, fun _ => watched⟩
      · cases taken
  | call =>
      simp only [step] at taken
      split at taken
      · cases taken
        refine ⟨attended.err, by rintro ⟨⟩, fun gone => ?_⟩
        exact watched_of_all fun q => Nat.zero_le _
      · cases taken
        refine ⟨attended.err, by rintro ⟨⟩, fun gone => ?_⟩
        exact watched_of_all fun q => Nat.zero_le _
      · cases taken
  | app =>
      rcases appStep_reader taken with ⟨_, reader⟩
      refine ⟨?_, ?_, ?_⟩
      · rw [appStep_err taken, reader]
        exact attended.err
      · intro closed
        rw [reader]
        exact attended.err (appStep_closed taken closed)
      · intro gone
        rw [reader] at gone
        exact appStep_watched holds (attended.watched gone) taken
  | leave =>
      simp only [step] at taken
      split at taken
      · cases taken
        refine ⟨attended.err, by rintro ⟨⟩, fun _ => ?_⟩
        exact watched_of_all fun q => trivial
      · cases taken
        refine ⟨attended.err, by rintro ⟨⟩, fun _ => ?_⟩
        exact watched_of_all fun q => trivial
      · cases taken

/-- Everything that holds of a state of an orderly run. -/
structure Accounted (state : State) : Prop where
  rings : Invariant state state.ring.queue
  solid : Solid state
  ledger : ∀ p, Ledger p (view state)
  attended : Attended state

theorem accounted_init (exponent : Nat) (small : exponent ≤ 7) :
    Accounted (init exponent small) where
  rings := (invariant_init exponent small).here
  solid := solid_init exponent small
  ledger := ledger_init exponent small
  attended := attended_init exponent small

theorem step_accounted {action : Action} (holds : Accounted state)
    (orderly : Orderly state action)
    (taken : step state action = some after) : Accounted after := by
  rcases step_invariant holds.rings orderly.1 taken with ⟨_, rings⟩
  have effect := step_effect holds.rings holds.solid taken
  exact
    { rings := rings.here
      solid := step_solid holds.solid taken
      ledger := effect.ledger rings.removals holds.ledger
      attended :=
        step_attended holds.rings holds.attended orderly.2 taken }

/-- With nothing undelivered in the rings, every batch has met its fate. -/
theorem Ledger.settled {p : Priority} (ledger : Ledger p (view state))
    (quiet : Quiet state) :
    ∃ fates, List.Forall₂ (Fate.Of p) (state.inserted p) fates ∧
      returned p state.got = fates.flatMap Fate.delivered := by
  rcases ledger with ⟨old, live, fates, delivered, split, met, got, holds⟩
  have none_ : ∀ {batch messages}, batch ∈ state.ring.queue p →
      HoldsMessages p batch messages → messages = [] := by
    intro batch messages member holds
    have finished := quiet p batch member
    cases holds.remaining with
    | stop _ => rfl
    | next parsed _ => cases finished.symm.trans parsed
  have queue : (view state).queue p = state.ring.queue p := rfl
  cases holding : state.ring.queue p with
  | nil =>
      rw [queue, holding] at holds
      cases holds
      refine ⟨fates, ?_, ?_⟩
      · change state.inserted p = _ at split
        rw [split, List.append_nil]
        exact met
      · rwa [List.append_nil] at got
  | cons current rest =>
      rw [queue, holding] at holds
      rw [holding] at none_
      cases holds with
      | @front original _ _ _ left whole holds sameQos later =>
          have spent := none_ (List.mem_cons_self ..) holds
          rw [spent] at whole
          have empty : List.Forall₂ (Fate.Of p) rest
              (rest.map fun _ => ⟨[], []⟩) := by
            rw [List.forall₂_map_right_iff, List.forall₂_same]
            intro batch member
            have sound := later batch member
            rcases holdsMessages_exists sound.1 sound.2 with
              ⟨messages, holds⟩
            rw [none_ (List.mem_cons_of_mem _ member) holds] at holds
            exact ⟨holds, fun lost => absurd rfl lost⟩
          have first : Fate.Of p original ⟨delivered, []⟩ :=
            ⟨whole, fun lost => absurd rfl lost⟩
          refine ⟨fates ++ ⟨delivered, []⟩ ::
            rest.map fun _ => ⟨[], []⟩, ?_, ?_⟩
          · change state.inserted p = _ at split
            rw [split]
            exact List.rel_append met (.cons first empty)
          · change returned p state.got = _ at got
            rw [got, List.flatMap_append, List.flatMap_cons]
            simp

/--
In every orderly run, pull reports `Closed` only when no ring holds an
undelivered message; every message of every batch written has then been
returned, in order, except for the rest of droppable batches discarded.
-/
theorem closed_delivered {exponent : Nat} {small : exponent ≤ 7}
    {actions : List Action}
    (orderly : Runs.Guarded step Orderly (init exponent small) actions)
    (ran : Runs.run step (init exponent small) actions = some state)
    (closed : state.app = .closed) :
    Quiet state ∧ ∀ p,
      ∃ fates, List.Forall₂ (Fate.Of p) (state.inserted p) fates ∧
        returned p state.got = fates.flatMap Fate.delivered := by
  have accounted := Runs.invariant
    (fun _ _ _ holds orderly taken => step_accounted holds orderly taken)
    (accounted_init exponent small) orderly ran
  have gone := accounted.attended.closed closed
  have quiet : Quiet state := by
    rcases accounted.attended.watched gone with quiet | ⟨q, _, ahead⟩
    · exact quiet
    · rw [closed] at ahead
      exact ahead.elim
  exact ⟨quiet, fun p => (accounted.ledger p).settled quiet⟩

instance (state : State) : Decidable (Quiet state) := by
  unfold Quiet
  infer_instance

instance (point : AppPoint) (q : Priority) :
    Decidable (Ahead point q) := by
  unfold Ahead
  split <;> infer_instance

/-- A ring of some priority meets a condition. -/
theorem exists_iff_any {motive : Priority → Prop}
    [DecidablePred motive] :
    (∃ q, motive q) ↔ Priority.ALL.any (fun q => motive q) = true := by
  simp

instance (state : State) : Decidable (Watched state) :=
  have := decidable_of_iff _
    (exists_iff_any
      (motive := fun q =>
        state.ring.queue q ≠ [] ∧ Ahead state.app q)).symm
  instDecidableOr

instance : DecidableRel Orderly := by
  intro state action
  unfold Orderly
  infer_instance

/-- A message is pulled after the reader task has dropped its end. -/
def closingRun : List Action :=
  arrival [1, 1, 0, 1, 42] ++ [.drop, .call, .app, .app, .app, .call] ++
    List.replicate 13 .app

/-- The pull reports `Closed` with the message returned. -/
theorem closed_delivered_one :
    ∃ state, Runs.run step (init 1 (by decide)) closingRun = some state ∧
      state.got.length = 1 ∧ Quiet state ∧ ∀ p,
        ∃ fates, List.Forall₂ (Fate.Of p) (state.inserted p) fates ∧
          returned p state.got = fates.flatMap Fate.delivered := by
  have orderly :
      Runs.Guarded step Orderly (init 1 (by decide)) closingRun := by
    decide +kernel
  have passed : (Runs.run step (init 1 (by decide)) closingRun).any
      (fun state => state.app = .closed ∧ state.got.length = 1) =
        true := by
    decide +kernel
  rcases Runs.exists_of_any passed with ⟨state, ran, found⟩
  have facts : state.app = .closed ∧ state.got.length = 1 := by
    simpa using found
  exact ⟨state, ran, facts.2, closed_delivered orderly ran facts.1⟩

/--
The application has scanned all rings when a message arrives and the reader
task drops its end; then it checks the event.
-/
def missedRun : List Action :=
  [.call, .app, .app, .app, .app, .app] ++ arrival [1, 1, 0, 1, 42] ++
    [.drop, .app]

/-- The pull reports `Closed` with the message still in its ring. -/
theorem closed_undelivered :
    ∃ state, Runs.run step (init 1 (by decide)) missedRun = some state ∧
      state.app = .closed ∧ state.got = [] ∧ ¬ Quiet state := by
  have passed : (Runs.run step (init 1 (by decide)) missedRun).any
      (fun state =>
        state.app = .closed ∧ state.got = [] ∧ ¬ Quiet state) = true := by
    decide +kernel
  rcases Runs.exists_of_any passed with ⟨state, ran, found⟩
  refine ⟨state, ran, ?_⟩
  simpa using found

end Interleaved
end Rx
end Thubo
