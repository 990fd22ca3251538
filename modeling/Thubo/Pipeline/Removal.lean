import Thubo.Pipeline.Interleaved

/-!
# Which batches are removed

A round of `try_pull` peeks at a batch and, when it is spent or discarded,
removes a batch by a second scan of the rings.  The two scans agree unless a
batch of a higher priority arrives in between.
-/

namespace Thubo
namespace Rx
namespace Interleaved

/-- The batch of a round may be removed: discarded, or nothing is left. -/
def Round.Spent (round : Round) (batch : ReadBatch) : Prop :=
  (round.discarded = true ∧ batch.qos.congestionControl = .drop) ∨
    batch.next = .ok none

/-- The batch removed is the one peeked at, and it may be removed. -/
structure Removal.Justified (removal : Removal) : Prop where
  same : removal.removed = removal.round.peeked
  spent : removal.round.Spent removal.batch

/-- No batch of a higher priority lies in the ring that is scanned. -/
def Unraced (state : State) : Action → Prop
  | .app =>
      match state.app with
      | .scan round q =>
          q = round.peeked.ring ∨ state.ring.queue q = []
      | _ => True
  | _ => True

instance (round : Round) (batch : ReadBatch) :
    Decidable (round.Spent batch) := by
  unfold Round.Spent
  infer_instance

instance : DecidableRel Unraced := by
  intro state action
  unfold Unraced
  split
  · split <;> infer_instance
  · infer_instance

/-! ## The invariant -/

/-- The batch of a round is at the front of its ring. -/
structure Front (taken : Priority → Nat)
    (queues : Priority → List ReadBatch) (round : Round)
    (batch : ReadBatch) (rest : List ReadBatch) : Prop where
  queue : queues round.peeked.ring = batch :: rest
  serial : taken round.peeked.ring = round.peeked.serial
  spent : round.Spent batch

/-- What holds at a point of the application. -/
def AppFacts (state : State) (queues : Priority → List ReadBatch) :
    AppPoint → Prop
  | .peeked id =>
      queues id.ring ≠ [] ∧ state.taken id.ring = id.serial
  | .scan round q =>
      q.toNat ≤ round.peeked.ring.toNat ∧
        ∃ batch rest, Front state.taken queues round batch rest
  | .take round q =>
      q = round.peeked.ring ∧ state.ring.ShowsElement q ∧
        ∃ batch rest, Front state.taken queues round batch rest
  | _ => True

/-- What holds at a point of the reader task. -/
def ReaderFacts (state : State) : ReaderPoint → Prop
  | .insert batch => state.ring.ShowsRoom batch.qos.priority
  | _ => True

/-- The rings hold these queues and every removal so far was justified. -/
structure Invariant (state : State)
    (queues : Priority → List ReadBatch) : Prop where
  ring : state.ring.Holds queues
  reader : ReaderFacts state state.reader
  app : AppFacts state queues state.app
  removals : ∀ removal ∈ state.removals, removal.Justified

variable {state after : State} {queues : Priority → List ReadBatch}

theorem invariant_init (exponent : Nat) (small : exponent ≤ 7) :
    Invariant (init exponent small) fun _ => [] where
  ring := RingBuf.Spsc.holds_new exponent small
  reader := trivial
  app := trivial
  removals removal member := by cases member

/-! ## Steps of the reader task -/

/-- What a step of the reader task leaves to the application. -/
structure ReaderStepped (state after : State)
    (queues longer : Priority → List ReadBatch) : Prop where
  ring : after.ring.Holds longer
  reader : ReaderFacts after after.reader
  grown : ∀ p, queues p <+: longer p
  handle : after.ring.reader = state.ring.reader
  point : after.app = state.app
  taken : after.taken = state.taken
  removals : after.removals = state.removals

/-- Longer queues do not disturb the application. -/
theorem AppFacts.grow {longer : Priority → List ReadBatch}
    {point : AppPoint} (facts : AppFacts state queues point)
    (grown : ∀ p, queues p <+: longer p)
    (handle : after.ring.reader = state.ring.reader)
    (taken : after.taken = state.taken) : AppFacts after longer point := by
  have front : ∀ {round batch rest},
      Front state.taken queues round batch rest →
        ∃ batch rest, Front after.taken longer round batch rest := by
    intro round batch rest front
    rcases grown round.peeked.ring with ⟨more, extended⟩
    refine ⟨batch, rest ++ more, ?_, ?_, front.spent⟩
    · rw [← extended, front.queue, List.cons_append]
    · rw [taken]
      exact front.serial
  cases point with
  | peeked id =>
      rcases grown id.ring with ⟨more, extended⟩
      refine ⟨?_, by rw [taken]; exact facts.2⟩
      rw [← extended]
      exact List.append_ne_nil_of_left_ne_nil facts.1 more
  | scan round q =>
      rcases facts with ⟨ahead, batch, rest, found⟩
      exact ⟨ahead, front found⟩
  | take round q =>
      rcases facts with ⟨same, shows_, batch, rest, found⟩
      refine ⟨same, ?_, front found⟩
      rw [RingBuf.Spsc.ShowsElement, handle]
      exact shows_
  | _ => trivial

/-- A step of the reader task keeps the invariant. -/
theorem Invariant.reader_stepped (holds : Invariant state queues)
    {longer : Priority → List ReadBatch}
    (stepped : ReaderStepped state after queues longer) :
    Invariant after longer where
  ring := stepped.ring
  reader := stepped.reader
  app := by
    rw [stepped.point]
    exact holds.app.grow stepped.grown stepped.handle stepped.taken
  removals := by
    rw [stepped.removals]
    exact holds.removals

/-- The rings and the application's side are left alone. -/
theorem stepped_of_ring_eq (holds : Invariant state queues)
    (ring : after.ring = state.ring)
    (reader : ReaderFacts after after.reader)
    (point : after.app = state.app) (taken : after.taken = state.taken)
    (removals : after.removals = state.removals) :
    ReaderStepped state after queues queues where
  ring := by
    rw [ring]
    exact holds.ring
  reader := reader
  grown _ := List.prefix_refl _
  handle := by rw [ring]
  point := point
  taken := taken
  removals := removals

theorem offer_stepped (holds : Invariant state queues)
    (batch : ReadBatch) :
    ReaderStepped state (offer state batch) queues queues := by
  rcases holds.ring.isFull batch.qos.priority with
    ⟨kept, _, handle, shows_⟩
  refine ⟨kept, ?_, fun _ => List.prefix_refl _, handle, rfl, rfl, rfl⟩
  simp only [offer]
  split
  · unfold giveBack
    split <;> trivial
  · rename_i room
    exact shows_ (Bool.eq_false_iff.2 room)

theorem insert_stepped (holds : Invariant state queues)
    {batch : ReadBatch}
    (room : state.ring.ShowsRoom batch.qos.priority) :
    ReaderStepped state (insert state batch) queues
      (Priority.update queues batch.qos.priority
        (queues batch.qos.priority ++ [batch])) where
  ring := holds.ring.insert room batch
  reader := trivial
  grown p := by
    rw [Priority.update_apply]
    split
    · rename_i same
      rw [same]
      exact List.prefix_append _ _
    · exact List.prefix_refl _
  handle := rfl
  point := rfl
  taken := rfl
  removals := rfl

/-- What a step of the reader task does to the queues. -/
theorem readerStep_stepped (holds : Invariant state queues)
    (taken : readerStep state = some after) :
    ∃ longer, ReaderStepped state after queues longer := by
  have facts := holds.reader
  unfold readerStep at taken
  split at taken
  · cases taken
    exact ⟨_, offer_stepped holds _⟩
  · rename_i point
    cases taken
    rw [point] at facts
    exact ⟨_, insert_stepped holds facts⟩
  · cases taken
    refine ⟨_, stepped_of_ring_eq holds rfl ?_ rfl rfl rfl⟩
    dsimp only
    split <;> trivial
  · cases taken
    exact ⟨_, stepped_of_ring_eq holds rfl trivial rfl rfl rfl⟩
  · cases taken
    exact ⟨_, stepped_of_ring_eq holds rfl trivial rfl rfl rfl⟩
  · cases taken

theorem readerFacts_start (state : State) (decoded : Decoded) :
    ReaderFacts state (start decoded) := by
  cases decoded <;> trivial

theorem readerFacts_afterTimeout (state : State) (batch : ReadBatch) :
    ReaderFacts state (afterTimeout batch) := by
  unfold afterTimeout
  split <;> trivial

/-! ## Steps of the application -/

/-- A ring that is scanned but holds nothing is before the peeked one. -/
theorem lower_of_lt {q p : Priority} (before : q.toNat < p.toNat) :
    ∃ next, q.lower = some next ∧ next.toNat ≤ p.toNat := by
  cases q <;> cases p <;>
    first
    | exact ⟨_, rfl, by decide⟩
    | exact absurd before (by decide)

theorem lt_of_le_of_ne {q p : Priority} (ahead : q.toNat ≤ p.toNat)
    (differs : q ≠ p) : q.toNat < p.toNat :=
  Nat.lt_of_le_of_ne ahead fun same =>
    differs (Priority.toNat_injective same)

/-- The reader task's test is about its own handle. -/
theorem ReaderFacts.keep {point : ReaderPoint}
    (facts : ReaderFacts state point)
    (writer : after.ring.writer = state.ring.writer)
    (exponent : after.ring.inner.exponent = state.ring.inner.exponent) :
    ReaderFacts after point := by
  cases point with
  | insert batch =>
      rw [ReaderFacts, RingBuf.Spsc.ShowsRoom, RingBuf.RingBuffer.capacity,
        writer, exponent]
      exact facts
  | _ => trivial

theorem peek_invariant (holds : Invariant state queues) (p : Priority) :
    Invariant (peek state p) queues := by
  rcases holds.ring.isEmpty p with ⟨kept, inner, writer, _, shows_⟩
  refine ⟨kept, ?_, ?_, holds.removals⟩
  · exact holds.reader.keep writer (congrArg _ inner)
  · simp only [peek]
    split
    · unfold nextOr
      split <;> trivial
    · rename_i found
      exact ⟨kept.nonempty (shows_ (Bool.eq_false_iff.2 found)), rfl⟩

theorem inspect_invariant (holds : Invariant state queues) {id : BatchId}
    (serial : state.taken id.ring = id.serial) {batch : ReadBatch}
    {rest : List ReadBatch} (queue : queues id.ring = batch :: rest)
    (taken : inspect state id batch = some after) :
    ∃ queues, Invariant after queues := by
  unfold inspect at taken
  dsimp only at taken
  split at taken
  · rename_i dropped
    cases taken
    refine ⟨queues, holds.ring, holds.reader, ?_, holds.removals⟩
    exact ⟨Nat.zero_le _, batch, rest, queue, serial,
      Or.inl ⟨rfl, dropped.2⟩⟩
  · split at taken
    · cases taken
    · rename_i finished
      cases taken
      refine ⟨queues, holds.ring, holds.reader, ?_, holds.removals⟩
      exact ⟨Nat.zero_le _, batch, rest, queue, serial,
        Or.inr finished⟩
    · cases taken
      refine ⟨_, holds.ring.setFront queue _, ?_, trivial,
        holds.removals⟩
      exact holds.reader.keep rfl rfl

theorem scan_invariant (holds : Invariant state queues) {round : Round}
    {q : Priority} (point : state.app = .scan round q)
    (unraced : q = round.peeked.ring ∨ queues q = []) :
    Invariant (scan state round q) queues := by
  have facts := holds.app
  rw [point] at facts
  rcases facts with ⟨ahead, batch, rest, front⟩
  rcases holds.ring.isEmpty q with ⟨kept, inner, writer, empty, shows_⟩
  refine ⟨kept, holds.reader.keep writer (congrArg _ inner), ?_,
    holds.removals⟩
  simp only [scan]
  split
  · rename_i reached
    have differs : q ≠ round.peeked.ring := by
      intro same
      have nothing := empty reached
      rw [same, front.queue] at nothing
      cases nothing
    rcases lower_of_lt (lt_of_le_of_ne ahead differs) with
      ⟨next, lower, stillAhead⟩
    simp only [nextOr, lower]
    exact ⟨stillAhead, batch, rest, front⟩
  · rename_i reached
    have element := shows_ (Bool.eq_false_iff.2 reached)
    have same := unraced.resolve_right (kept.nonempty element)
    exact ⟨same, element, batch, rest, front⟩

theorem take_invariant (holds : Invariant state queues) {round : Round}
    {q : Priority} (point : state.app = .take round q)
    {batch : ReadBatch} (front : state.ring.front q = some batch) :
    Invariant (take state round q batch)
      (Priority.update queues q (queues q).tail) := by
  have facts := holds.app
  rw [point] at facts
  rcases facts with ⟨rfl, element, other, rest, found⟩
  have same := (holds.ring.front found.queue).symm.trans front
  cases same
  refine ⟨holds.ring.remove element, holds.reader.keep rfl rfl, trivial,
    ?_⟩
  intro removal member
  rcases List.mem_append.1 member with old | new
  · exact holds.removals removal old
  · cases List.mem_singleton.1 new
    refine ⟨?_, found.spent⟩
    dsimp only
    rw [found.serial]

/-- Only the point of the application and its events change. -/
theorem Invariant.move (holds : Invariant state queues)
    (ring : after.ring = state.ring)
    (reader : after.reader = state.reader)
    (removals : after.removals = state.removals)
    (facts : AppFacts after queues after.app) :
    Invariant after queues where
  ring := by
    rw [ring]
    exact holds.ring
  reader := by
    rw [reader]
    exact holds.reader.keep (by rw [ring]) (by rw [ring])
  app := facts
  removals := by
    rw [removals]
    exact holds.removals

theorem checkEvent_invariant (holds : Invariant state queues)
    {unset : AppPoint}
    (harmless : ∀ after : State, AppFacts after queues unset) :
    Invariant (checkEvent state unset) queues := by
  refine holds.move rfl rfl rfl ?_
  simp only [checkEvent]
  split
  · trivial
  · exact harmless _
  · trivial

/-- Every unraced step of the application keeps the invariant. -/
theorem appStep_invariant (holds : Invariant state queues)
    (unraced : Unraced state .app) (taken : appStep state = some after) :
    ∃ queues, Invariant after queues := by
  have facts := holds.app
  have queue := holds.ring.queue_eq
  unfold appStep at taken
  split at taken
  · cases taken
    exact ⟨_, peek_invariant holds _⟩
  · rename_i id point
    rw [point] at facts
    cases found : queues id.ring with
    | nil => exact absurd found facts.1
    | cons batch rest =>
        rw [holds.ring.front found] at taken
        exact inspect_invariant holds facts.2 found taken
  · rename_i round q point
    cases taken
    simp only [Unraced, point, queue] at unraced
    exact ⟨_, scan_invariant holds point unraced⟩
  · rename_i round q point
    split at taken
    · cases taken
    · rename_i batch front
      cases taken
      exact ⟨_, take_invariant holds point front⟩
  · cases taken
    exact ⟨_, holds.move rfl rfl rfl trivial⟩
  · cases taken
    exact ⟨_, holds.move rfl rfl rfl trivial⟩
  · cases taken
    exact ⟨_, checkEvent_invariant holds fun _ => trivial⟩
  · cases taken
    exact ⟨_, checkEvent_invariant holds fun _ => trivial⟩
  · cases taken
    exact ⟨_, holds.move rfl rfl rfl trivial⟩
  · cases taken
  · cases taken

/-! ## Runs -/

/-- Every unraced step keeps the invariant. -/
theorem step_invariant {action : Action} (holds : Invariant state queues)
    (unraced : Unraced state action)
    (taken : step state action = some after) :
    ∃ queues, Invariant after queues := by
  have left : ∀ {after : State}, after.ring = state.ring →
      ReaderFacts after after.reader → after.app = state.app →
      after.taken = state.taken → after.removals = state.removals →
      ∃ queues, Invariant after queues := fun ring reader point taken
      removals => ⟨_, holds.reader_stepped
        (stepped_of_ring_eq holds ring reader point taken removals)⟩
  cases action with
  | push chunk fragMaxSize =>
      simp only [step] at taken
      split at taken
      · split at taken
        · cases taken
        · split at taken
          · cases taken
          · cases taken
            exact left rfl (readerFacts_start _ _) rfl rfl rfl
      · cases taken
  | reader =>
      rcases readerStep_stepped holds taken with ⟨longer, stepped⟩
      exact ⟨longer, holds.reader_stepped stepped⟩
  | deadline =>
      simp only [step] at taken
      split at taken
      · cases taken
        exact left rfl trivial rfl rfl rfl
      · cases taken
  | room =>
      simp only [step] at taken
      split at taken
      · split at taken
        · cases taken
          exact left rfl trivial rfl rfl rfl
        · cases taken
      · cases taken
  | expired =>
      simp only [step] at taken
      split at taken
      · cases taken
        exact left rfl (readerFacts_afterTimeout _ _) rfl rfl rfl
      · cases taken
  | drop =>
      simp only [step] at taken
      split at taken
      · cases taken
        exact left rfl trivial rfl rfl rfl
      · cases taken
        exact left rfl trivial rfl rfl rfl
      · cases taken
  | call =>
      simp only [step] at taken
      split at taken
      · cases taken
        exact ⟨_, holds.move rfl rfl rfl trivial⟩
      · cases taken
        exact ⟨_, holds.move rfl rfl rfl trivial⟩
      · cases taken
  | app => exact appStep_invariant holds unraced taken
  | leave =>
      simp only [step] at taken
      split at taken
      · cases taken
        exact ⟨_, holds.move rfl rfl rfl trivial⟩
      · cases taken
        exact ⟨_, holds.move rfl rfl rfl trivial⟩
      · cases taken

/-- The invariant holds for some queues. -/
def Consistent (state : State) : Prop :=
  ∃ queues, Invariant state queues

theorem consistent_init (exponent : Nat) (small : exponent ≤ 7) :
    Consistent (init exponent small) :=
  ⟨_, invariant_init exponent small⟩

theorem step_consistent {action : Action} (holds : Consistent state)
    (unraced : Unraced state action)
    (taken : step state action = some after) : Consistent after := by
  rcases holds with ⟨queues, holds⟩
  exact step_invariant holds unraced taken

/--
In every run in which no batch of a higher priority lies in a ring when the
removing scan looks at it, the batch removed is always the one peeked at.
-/
theorem removed_peeked {exponent : Nat} {small : exponent ≤ 7}
    {actions : List Action}
    (unraced : Runs.Guarded step Unraced (init exponent small) actions)
    (ran : Runs.run step (init exponent small) actions = some state) :
    ∀ removal ∈ state.removals, removal.Justified := by
  rcases Runs.invariant
    (fun _ _ _ holds unraced taken => step_consistent holds unraced taken)
    (consistent_init exponent small) unraced ran with ⟨queues, holds⟩
  exact holds.removals

/-- The reader task pushes a frame into an empty ring. -/
def arrival (content : List UInt8) : List Action :=
  [.push (Chunk.ofBuf content) 100, .reader, .reader, .reader]

/-- A frame of one message arrives and is pulled, then removed. -/
def spentRun : List Action :=
  arrival [1, 1, 0, 1, 42] ++ [.call, .app, .app, .app, .call] ++
    List.replicate 7 .app

/-- The frame is removed when the second pull finds nothing left in it. -/
theorem removed_peeked_spent :
    ∃ state, Runs.run step (init 1 (by decide)) spentRun = some state ∧
      state.removals.length = 1 ∧
      ∀ removal ∈ state.removals, removal.Justified := by
  have unraced :
      Runs.Guarded step Unraced (init 1 (by decide)) spentRun := by
    decide +kernel
  have passed : (Runs.run step (init 1 (by decide)) spentRun).any
      (fun state => state.removals.length = 1) = true := by
    decide +kernel
  rcases Runs.exists_of_any passed with ⟨state, ran, once⟩
  exact ⟨state, ran, by simpa using once, removed_peeked unraced ran⟩

/--
A batch of high priority arrives between the peek at a spent batch of medium
priority and the removing scan.
-/
def raceRun : List Action :=
  arrival [1, 1, 0, 1, 42] ++ [.call, .app, .app, .app, .call] ++
    [.app, .app, .app] ++ arrival [0, 1, 0, 1, 7] ++ [.app, .app]

/-- The batch removed is the new one, and its message is lost. -/
theorem removed_other :
    ∃ state, Runs.run step (init 1 (by decide)) raceRun = some state ∧
      ∃ removal ∈ state.removals,
        removal.removed ≠ removal.round.peeked ∧
          ¬ removal.round.Spent removal.batch := by
  have passed : (Runs.run step (init 1 (by decide)) raceRun).any
      (fun state => state.removals.any fun removal =>
        removal.removed ≠ removal.round.peeked ∧
          ¬ removal.round.Spent removal.batch) = true := by
    decide +kernel
  rcases Runs.exists_of_any passed with ⟨state, ran, found⟩
  refine ⟨state, ran, ?_⟩
  simpa using found

end Interleaved
end Rx
end Thubo
