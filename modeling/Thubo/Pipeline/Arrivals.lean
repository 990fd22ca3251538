import Thubo.Pipeline.Ledger
import Thubo.Pipeline.Feed

/-!
# What the concurrent receiver returns

The reader task pushes while the application pulls, and the two race.  Seen
from the batches, a step decodes one, returns a message of one, or loses one:
because its push has been given up, because it is discarded, or because the
ring's `pull` takes another batch than the one peeked at.  None of this
reorders the messages of a priority or makes up new ones.

In a calm run no timer expires, the reader task drops its end between pushes
only, and no removal is raced.  Nothing is lost in it.
-/

namespace Thubo
namespace Rx
namespace Interleaved

open Tx (Sent Partial Counters Bounded Emits encodeMessage)

/-! ## The batches that have not left -/

/-- The batch that the reader task is about to insert. -/
def ReaderPoint.batch : ReaderPoint → Option ReadBatch
  | .offer batch | .insert batch | .full batch | .timed batch
  | .waiting batch => some batch
  | .idle | .notify | .gone => none

/-- The batch that decoding has delivered. -/
def delivered : Decoded → Option ReadBatch
  | .deliver batch => some batch
  | .reject _ | .kept => none

/-- A batch as the end of the ring of a priority. -/
def tailOf (p : Priority) (batch : Option ReadBatch) : List ReadBatch :=
  batch.toList.filter fun batch => batch.qos.priority = p

/-- The batches of a priority in its ring and at the reader task. -/
def held (state : State) (p : Priority) : List ReadBatch :=
  state.ring.queue p ++ tailOf p state.reader.batch

@[simp]
theorem tailOf_none (p : Priority) : tailOf p none = [] :=
  rfl

theorem tailOf_some (p : Priority) (batch : ReadBatch) :
    tailOf p (some batch) = if batch.qos.priority = p then [batch] else [] := by
  by_cases same : batch.qos.priority = p
  · simp [tailOf, same]
  · simp [tailOf, same]

@[simp]
theorem batch_start (decoded : Decoded) :
    (start decoded).batch = delivered decoded := by
  cases decoded <;> rfl

@[simp]
theorem batch_giveBack (batch : ReadBatch) :
    (giveBack batch).batch = some batch := by
  unfold giveBack
  split <;> rfl

/-! ## What a step can do -/

/-- The step loses nothing. -/
def Patient (state : State) : Action → Prop
  | .deadline | .expired => False
  | .drop => state.reader = .idle
  | action => Unraced state action

instance : DecidableRel Patient := by
  intro state action
  unfold Patient
  split <;> infer_instance

/-- The contents that an action hands to the receiver. -/
def arrived : Action → List (List UInt8)
  | .push chunk _ => [chunk.asSlice]
  | _ => []

/--
What a step does to the batches that have not left; in a calm run none of
them is lost.
-/
inductive Change (calm : Prop) (state after : State) : Action → Prop where
  /-- A batch is decoded. -/
  | decode (chunk : Chunk) (fragMaxSize : Nat) (decoded : Decoded)
      (nonempty : chunk.len ≠ 0)
      (ran : decodeBatch state.defrag (Bytes.single chunk) fragMaxSize =
        .ok (decoded, after.defrag))
      (held : ∀ p, held after p =
        held state p ++ tailOf p (delivered decoded))
      (got : after.got = state.got) :
      Change calm state after (.push chunk fragMaxSize)
  /-- Nothing happens to them. -/
  | keep {action : Action} (silent : arrived action = [])
      (defrag : after.defrag = state.defrag)
      (held : held after = held state) (got : after.got = state.got) :
      Change calm state after action
  /-- The front batch of a ring returns its next message. -/
  | next {action : Action} (silent : arrived action = [])
      {p : Priority} {batch changed : ReadBatch} {rest : List ReadBatch}
      {t : Bytes} {qos : QoS} (defrag : after.defrag = state.defrag)
      (before : held state p = batch :: rest)
      (next : batch.next = .ok (some (t, qos, changed)))
      (held : held after =
        Priority.update (held state) p (changed :: rest))
      (got : after.got = state.got ++ [(t, qos)]) :
      Change calm state after action
  /-- The front batch of a ring is removed. -/
  | remove {action : Action} (silent : arrived action = [])
      {p : Priority} {batch : ReadBatch} {rest : List ReadBatch}
      (defrag : after.defrag = state.defrag)
      (before : held state p = batch :: rest)
      (spent : calm → batch.next = .ok none)
      (held : held after = Priority.update (held state) p rest)
      (got : after.got = state.got) :
      Change calm state after action
  /-- The push of the batch at the reader task is given up. -/
  | refuse {action : Action} (silent : arrived action = [])
      {p : Priority} {batch : ReadBatch} {rest : List ReadBatch}
      (lossy : ¬ calm) (defrag : after.defrag = state.defrag)
      (before : held state p = rest ++ [batch])
      (held : held after = Priority.update (held state) p rest)
      (got : after.got = state.got) :
      Change calm state after action

/-! ## The invariant -/

/-- The front batch of a ring is spent. -/
def FrontSpent (state : State) (p : Priority) : Prop :=
  ∃ batch rest, state.ring.queue p = batch :: rest ∧
    batch.next = .ok none

/-- What holds at a point of the application. -/
def AppHolds (calm : Prop) (state : State) : AppPoint → Prop
  | .peeked id => state.ring.queue id.ring ≠ []
  | .scan round q =>
      calm → q.toNat ≤ round.peeked.ring.toNat ∧
        FrontSpent state round.peeked.ring
  | .take _ q =>
      state.ring.ShowsElement q ∧ (calm → FrontSpent state q)
  | _ => True

/-- The rings are consistent, and no batch is to be lost in a calm run. -/
structure Kept (calm : Prop) (state : State) : Prop where
  ring : state.ring.Holds state.ring.queue
  solid : Solid state
  reader : ReaderFacts state state.reader
  app : AppHolds calm state state.app
  free : calm → ∀ p, state.congested p = false

variable {calm : Prop} {state after : State} {action : Action}

theorem kept_init (exponent : Nat) (small : exponent ≤ 7) :
    Kept calm (init exponent small) where
  ring := by
    have holds : (init exponent small).ring.Holds fun _ => [] :=
      RingBuf.Spsc.holds_new exponent small
    rwa [← holds.queue_eq] at holds
  solid := solid_init exponent small
  reader := trivial
  app := trivial
  free _ _ := rfl

/-- The queues that a ring holds are its own. -/
theorem holds_queue {ring : RingBuf.Spsc ReadBatch}
    {queues : Priority → List ReadBatch} (holds : ring.Holds queues) :
    ring.Holds ring.queue ∧ ring.queue = queues := by
  have same := holds.queue_eq
  exact ⟨same ▸ holds, same⟩

/-- A batch behind a ring does not hide its front. -/
theorem held_cons {p : Priority} {batch : ReadBatch}
    {rest : List ReadBatch}
    (queue : state.ring.queue p = batch :: rest) :
    held state p = batch :: (rest ++ tailOf p state.reader.batch) := by
  rw [held, queue, List.cons_append]

/-- Rings that change in one place, with the same batch behind them. -/
theorem held_update (state : State) {after : State} {p : Priority}
    {batches : List ReadBatch} (queue : after.ring.queue =
      Priority.update state.ring.queue p batches)
    (reader : after.reader = state.reader) :
    held after = Priority.update (held state) p
      (batches ++ tailOf p state.reader.batch) := by
  funext q
  rw [held, queue, reader, Priority.update_apply, Priority.update_apply]
  split
  · rename_i same
    rw [same]
  · rfl

theorem held_congr (queue : after.ring.queue = state.ring.queue)
    (batch : after.reader.batch = state.reader.batch) :
    held after = held state := by
  funext p
  rw [held, held, queue, batch]

/-! ## Steps of the reader task -/

/-- The application is not disturbed by what the reader task does. -/
theorem AppHolds.grow {point : AppPoint} (app : AppHolds calm state point)
    (grown : ∀ p, state.ring.queue p <+: after.ring.queue p)
    (handle : after.ring.reader = state.ring.reader) :
    AppHolds calm after point := by
  have spent : ∀ {p}, FrontSpent state p → FrontSpent after p := by
    rintro p ⟨batch, rest, queue, spent⟩
    rcases grown p with ⟨more, extended⟩
    exact ⟨batch, rest ++ more, by rw [← extended, queue]; rfl, spent⟩
  cases point with
  | peeked id =>
      rcases grown id.ring with ⟨more, extended⟩
      rw [AppHolds, ← extended]
      exact List.append_ne_nil_of_left_ne_nil app more
  | scan round q =>
      intro isCalm
      exact ⟨(app isCalm).1, spent (app isCalm).2⟩
  | take round q =>
      refine ⟨?_, fun isCalm => spent (app.2 isCalm)⟩
      rw [RingBuf.Spsc.ShowsElement, handle]
      exact app.1
  | _ => trivial

/-- A step of the reader task that leaves the rings alone. -/
theorem Kept.reader_moves (kept : Kept calm state)
    (ring : after.ring = state.ring) (solid : Solid after)
    (reader : ReaderFacts after after.reader)
    (point : after.app = state.app)
    (free : calm → ∀ p, after.congested p = false) :
    Kept calm after where
  ring := by
    rw [ring]
    exact kept.ring
  solid := solid
  reader := reader
  app := by
    rw [point]
    exact kept.app.grow
      (fun p => by simp only [ring, List.prefix_rfl]) (by rw [ring])
  free := free

theorem offer_kept (kept : Kept calm state) (batch : ReadBatch)
    (solid : Solid (offer state batch)) :
    Kept calm (offer state batch) ∧
      (offer state batch).ring.queue = state.ring.queue := by
  rcases kept.ring.isFull batch.qos.priority with
    ⟨holds, inner, handle, shows_⟩
  rcases holds_queue holds with ⟨own, same⟩
  refine ⟨⟨own, solid, ?_, ?_, kept.free⟩, same⟩
  · simp only [offer]
    split
    · unfold giveBack
      split <;> trivial
    · rename_i room
      exact shows_ (Bool.eq_false_iff.2 room)
  · refine kept.app.grow (fun p => ?_) handle
    simp only [offer, same, List.prefix_rfl]

theorem insert_kept (kept : Kept calm state) {batch : ReadBatch}
    (room : state.ring.ShowsRoom batch.qos.priority) :
    Kept calm (insert state batch) ∧
      (insert state batch).ring.queue =
        Priority.update state.ring.queue batch.qos.priority
          (state.ring.queue batch.qos.priority ++ [batch]) := by
  rcases holds_queue (kept.ring.insert room batch) with ⟨own, same⟩
  refine ⟨⟨own, ⟨kept.solid.defrag, trivial⟩, trivial, ?_, kept.free⟩,
    same⟩
  refine kept.app.grow (fun p => ?_) rfl
  rw [insert, same, Priority.update_apply]
  split
  · rename_i own
    rw [own]
    exact List.prefix_append _ _
  · exact List.prefix_refl _

/-- Where the batch is written, the ones held are the same. -/
theorem held_insert {batch : ReadBatch} (point : state.reader = .insert batch)
    (queue : after.ring.queue =
      Priority.update state.ring.queue batch.qos.priority
        (state.ring.queue batch.qos.priority ++ [batch]))
    (reader : after.reader.batch = none) : held after = held state := by
  funext p
  rw [held, held, queue, reader, point, tailOf_none, List.append_nil,
    ReaderPoint.batch, tailOf_some, Priority.update_apply]
  by_cases same : p = batch.qos.priority
  · rw [if_pos same, if_pos same.symm, same]
  · rw [if_neg same, if_neg (Ne.symm same), List.append_nil]

/-- The batch at the reader task is lost. -/
theorem held_lost (state after : State) {batch : ReadBatch}
    (queue : after.ring.queue = state.ring.queue)
    (before : state.reader.batch = some batch)
    (reader : after.reader.batch = none) :
    held state batch.qos.priority =
        state.ring.queue batch.qos.priority ++ [batch] ∧
      held after = Priority.update (held state) batch.qos.priority
        (state.ring.queue batch.qos.priority) := by
  constructor
  · rw [held, before, tailOf_some, if_pos rfl]
  · funext p
    rw [held, queue, reader, tailOf_none, List.append_nil,
      Priority.update_apply]
    split
    · rename_i same
      rw [same]
    · rename_i other
      rw [held, before, tailOf_some, if_neg (Ne.symm other),
        List.append_nil]

/-- What a step of the reader task does. -/
theorem readerStep_kept (kept : Kept calm state)
    (taken : readerStep state = some after) :
    Kept calm after ∧ Change calm state after .reader := by
  have facts := kept.reader
  have solid := readerStep_solid kept.solid taken
  unfold readerStep at taken
  split at taken
  · rename_i batch point
    cases taken
    rcases offer_kept kept batch solid with ⟨later, queue⟩
    refine ⟨later, .keep rfl rfl (held_congr queue ?_) rfl⟩
    rw [point, offer]
    dsimp only
    split
    · exact batch_giveBack batch
    · rfl
  · rename_i batch point
    cases taken
    rw [point] at facts
    rcases insert_kept kept facts with ⟨later, queue⟩
    exact ⟨later, .keep rfl rfl (held_insert point queue rfl) rfl⟩
  · rename_i batch point
    have own : state.reader.batch = some batch := by rw [point]; rfl
    cases taken
    by_cases congested : state.congested batch.qos.priority = true
    · have lossy : ¬ calm := by
        intro isCalm
        rw [kept.free isCalm] at congested
        cases congested
      simp only [congested, if_true] at solid ⊢
      rcases held_lost state { state with reader := .idle } rfl own rfl
        with ⟨before, lost⟩
      exact ⟨kept.reader_moves rfl solid trivial rfl kept.free,
        .refuse rfl lossy rfl before lost rfl⟩
    · simp only [congested] at solid ⊢
      exact ⟨kept.reader_moves rfl solid trivial rfl kept.free,
        .keep rfl rfl (held_congr rfl own.symm) rfl⟩
  · rename_i batch point
    cases taken
    refine ⟨kept.reader_moves rfl solid trivial rfl kept.free,
      .keep rfl rfl (held_congr rfl ?_) rfl⟩
    rw [point]
    rfl
  · rename_i point
    cases taken
    refine ⟨kept.reader_moves rfl solid trivial rfl kept.free,
      .keep rfl rfl (held_congr rfl ?_) rfl⟩
    rw [point]
    rfl
  · cases taken

/-! ## Steps of the application -/

/-- A step of the application that leaves the rings alone. -/
theorem Kept.app_moves (kept : Kept calm state)
    (ring : after.ring = state.ring) (defrag : after.defrag = state.defrag)
    (reader : after.reader = state.reader)
    (app : AppHolds calm after after.app)
    (free : calm → ∀ p, after.congested p = false) :
    Kept calm after where
  ring := by
    rw [ring]
    exact kept.ring
  solid := by
    refine ⟨?_, ?_⟩
    · rw [defrag]
      exact kept.solid.defrag
    · rw [reader]
      exact kept.solid.reader
  reader := by
    rw [reader]
    exact kept.reader.keep (by rw [ring]) (by rw [ring])
  app := app
  free := free

/-- A look at a ring, after which the application is at a point. -/
theorem look_kept (kept : Kept calm state) (p : Priority) (app : AppPoint)
    (holds : ∀ after : State, after.ring = (state.ring.isEmpty p).2 →
      AppHolds calm after app) :
    Kept calm { state with ring := (state.ring.isEmpty p).2, app := app } ∧
      (state.ring.isEmpty p).2.queue = state.ring.queue := by
  rcases kept.ring.isEmpty p with ⟨holds_, inner, writer, _, _⟩
  rcases holds_queue holds_ with ⟨own, same⟩
  refine ⟨⟨own, ⟨kept.solid.defrag, kept.solid.reader⟩, ?_,
    holds _ rfl, kept.free⟩, same⟩
  exact kept.reader.keep writer (congrArg _ inner)

theorem peek_kept (kept : Kept calm state) (p : Priority) :
    Kept calm (peek state p) ∧
      (peek state p).ring.queue = state.ring.queue := by
  rcases kept.ring.isEmpty p with ⟨holds, _, _, _, shows_⟩
  refine look_kept kept p _ fun after ring => ?_
  split
  · unfold nextOr
    split <;> trivial
  · rename_i found
    have element := shows_ (Bool.eq_false_iff.2 found)
    have nonempty := (holds_queue holds).1.nonempty element
    rwa [AppHolds, ring]

theorem scan_kept (kept : Kept calm state) {round : Round} {q : Priority}
    (point : state.app = .scan round q)
    (unraced : calm → q = round.peeked.ring ∨ state.ring.queue q = []) :
    Kept calm (scan state round q) ∧
      (scan state round q).ring.queue = state.ring.queue := by
  have facts := kept.app
  rw [point] at facts
  rcases kept.ring.isEmpty q with ⟨holds, _, _, empty, shows_⟩
  have same := (holds_queue holds).2
  have spent : ∀ {after : State} {p},
      after.ring = (state.ring.isEmpty q).2 →
        FrontSpent state p → FrontSpent after p := by
    intro after p ring spent
    rwa [FrontSpent, ring, same]
  refine look_kept kept q _ fun after ring => ?_
  split
  · rename_i reached
    unfold nextOr
    split
    · rename_i next lower
      intro isCalm
      rcases facts isCalm with ⟨ahead, front⟩
      have differs : q ≠ round.peeked.ring := by
        rintro rfl
        rcases front with ⟨batch, rest, queue, _⟩
        cases queue.symm.trans (empty reached)
      rcases lower_of_lt (lt_of_le_of_ne ahead differs) with
        ⟨_, found, stillAhead⟩
      cases lower.symm.trans found
      exact ⟨stillAhead, spent ring front⟩
    · trivial
  · rename_i reached
    have element := shows_ (Bool.eq_false_iff.2 reached)
    refine ⟨?_, fun isCalm => ?_⟩
    · rwa [ring]
    · have own : q = round.peeked.ring :=
        (unraced isCalm).resolve_right (holds.nonempty element)
      rw [own]
      exact spent ring (facts isCalm).2

theorem take_kept (kept : Kept calm state) {round : Round} {q : Priority}
    (point : state.app = .take round q) {batch : ReadBatch}
    (front : state.ring.front q = some batch) :
    ∃ rest, state.ring.queue q = batch :: rest ∧
      (calm → batch.next = .ok none) ∧
      Kept calm (take state round q batch) ∧
      (take state round q batch).ring.queue =
        Priority.update state.ring.queue q rest := by
  have facts := kept.app
  rw [point] at facts
  rcases facts with ⟨element, spent⟩
  cases queue : state.ring.queue q with
  | nil => exact absurd queue (kept.ring.nonempty element)
  | cons first rest =>
      cases (kept.ring.front queue).symm.trans front
      rcases holds_queue (kept.ring.remove element) with ⟨own, same⟩
      rw [queue, List.tail_cons] at same
      refine ⟨rest, rfl, fun isCalm => ?_, ⟨own, ⟨kept.solid.defrag,
        kept.solid.reader⟩, kept.reader.keep rfl rfl, trivial, kept.free⟩,
        same⟩
      rcases spent isCalm with ⟨other, _, again, finished⟩
      cases queue.symm.trans again
      exact finished

/-- The peeked batch is discarded, spent or returns a message. -/
theorem inspect_kept (kept : Kept calm state) {id : BatchId}
    {batch : ReadBatch} {rest : List ReadBatch}
    (queue : state.ring.queue id.ring = batch :: rest)
    (taken : inspect state id batch = some after) :
    Kept calm after ∧ Change calm state after .app := by
  have unset : calm → ∀ p, Priority.update state.congested
      batch.qos.priority false p = false := by
    intro isCalm p
    rw [Priority.update_apply]
    split
    · rfl
    · exact kept.free isCalm p
  unfold inspect at taken
  dsimp only at taken
  split at taken
  · rename_i dropped
    cases taken
    refine ⟨kept.app_moves rfl rfl rfl (fun isCalm => ?_) unset,
      .keep rfl rfl (held_congr rfl rfl) rfl⟩
    rw [kept.free isCalm] at dropped
    cases dropped.1
  · split at taken
    · cases taken
    · rename_i finished
      cases taken
      refine ⟨kept.app_moves rfl rfl rfl (fun _ => ?_) unset,
        .keep rfl rfl (held_congr rfl rfl) rfl⟩
      exact ⟨Nat.zero_le _, batch, rest, queue, finished⟩
    · rename_i t qos changed next
      cases taken
      rcases holds_queue (kept.ring.setFront queue changed) with
        ⟨own, same⟩
      refine ⟨⟨own, ⟨kept.solid.defrag, kept.solid.reader⟩,
        kept.reader.keep rfl rfl, trivial, unset⟩, ?_⟩
      refine .next rfl rfl (held_cons queue) next ?_ rfl
      rw [← List.cons_append]
      exact held_update state same rfl

theorem checkEvent_kept (kept : Kept calm state) {unset : AppPoint}
    (harmless : ∀ after : State, AppHolds calm after unset) :
    Kept calm (checkEvent state unset) := by
  refine kept.app_moves rfl rfl rfl ?_ kept.free
  simp only [checkEvent]
  split
  · trivial
  · exact harmless _
  · trivial

/-- What a step of the application does. -/
theorem appStep_kept (kept : Kept calm state)
    (unraced : calm → Unraced state .app)
    (taken : appStep state = some after) :
    Kept calm after ∧ Change calm state after .app := by
  have facts := kept.app
  unfold appStep at taken
  split at taken
  · rename_i p _
    cases taken
    rcases peek_kept kept p with ⟨later, queue⟩
    exact ⟨later, .keep rfl rfl (held_congr queue rfl) rfl⟩
  · rename_i id point
    rw [point] at facts
    cases queue : state.ring.queue id.ring with
    | nil => exact absurd queue facts
    | cons batch rest =>
        rw [kept.ring.front queue] at taken
        exact inspect_kept kept queue taken
  · rename_i round q point
    cases taken
    simp only [Unraced, point] at unraced
    rcases scan_kept kept point unraced with ⟨later, queue⟩
    exact ⟨later, .keep rfl rfl (held_congr queue rfl) rfl⟩
  · rename_i round q point
    split at taken
    · cases taken
    · rename_i batch front
      cases taken
      rcases take_kept kept point front with
        ⟨rest, queue, spent, later, removed⟩
      exact ⟨later, .remove rfl rfl (held_cons queue) spent
        (held_update state removed rfl) rfl⟩
  · cases taken
    exact ⟨kept.app_moves rfl rfl rfl trivial kept.free,
      .keep rfl rfl (held_congr rfl rfl) rfl⟩
  · cases taken
    exact ⟨kept.app_moves rfl rfl rfl trivial kept.free,
      .keep rfl rfl (held_congr rfl rfl) rfl⟩
  · cases taken
    exact ⟨checkEvent_kept kept fun _ => trivial,
      .keep rfl rfl (held_congr rfl rfl) rfl⟩
  · cases taken
    exact ⟨checkEvent_kept kept fun _ => trivial,
      .keep rfl rfl (held_congr rfl rfl) rfl⟩
  · cases taken
    exact ⟨kept.app_moves rfl rfl rfl trivial kept.free,
      .keep rfl rfl (held_congr rfl rfl) rfl⟩
  · cases taken
  · cases taken

/-! ## All steps -/

/-- The push of the batch at the reader task is given up. -/
theorem giveUp_kept (kept : Kept calm state) (lossy : ¬ calm)
    {batch : ReadBatch} (own : state.reader.batch = some batch)
    (silent : arrived action = []) (solid : Solid after)
    (ring : after.ring = state.ring) (defrag : after.defrag = state.defrag)
    (app : after.app = state.app) (got : after.got = state.got)
    (reader : after.reader = .idle ∨ after.reader = .gone) :
    Kept calm after ∧ Change calm state after action := by
  have none_ : after.reader.batch = none := by
    rcases reader with point | point <;> rw [point] <;> rfl
  have facts : ReaderFacts after after.reader := by
    rcases reader with point | point <;> rw [point] <;> trivial
  rcases held_lost state after (by rw [ring]) own none_ with
    ⟨before, lost⟩
  exact ⟨kept.reader_moves ring solid facts app
      fun isCalm => absurd isCalm lossy,
    .refuse silent lossy defrag before lost got⟩

/-- What a step does. -/
theorem step_kept (kept : Kept calm state)
    (patient : calm → Patient state action)
    (taken : step state action = some after) :
    Kept calm after ∧ Change calm state after action := by
  have solid := step_solid kept.solid taken
  cases action with
  | push chunk fragMaxSize =>
      simp only [step] at taken
      split at taken
      · rename_i point
        split at taken
        · cases taken
        · rename_i nonempty
          split at taken
          · cases taken
          · rename_i decoded defrag ran
            cases taken
            refine ⟨kept.reader_moves rfl solid
              (readerFacts_start _ _) rfl kept.free,
              .decode chunk fragMaxSize decoded nonempty ran
                (fun p => ?_) rfl⟩
            rw [held, held, point, batch_start]
            change _ = (_ ++ tailOf p none) ++ _
            rw [tailOf_none, List.append_nil]
      · cases taken
  | reader => exact readerStep_kept kept taken
  | deadline =>
      simp only [step] at taken
      split at taken
      · rename_i batch point
        cases taken
        exact giveUp_kept kept patient (by rw [point]; rfl) rfl solid rfl
          rfl rfl rfl (Or.inl rfl)
      · cases taken
  | room =>
      simp only [step] at taken
      split at taken
      · rename_i batch point
        split at taken
        · cases taken
          refine ⟨kept.reader_moves rfl solid trivial rfl kept.free,
            .keep rfl rfl (held_congr rfl ?_) rfl⟩
          rw [point]
          rfl
        · cases taken
      · cases taken
  | expired =>
      simp only [step] at taken
      split at taken
      · rename_i batch point
        have own : state.reader.batch = some batch := by rw [point]; rfl
        cases taken
        cases kind : batch.qos.congestionControl with
        | block =>
            have same : afterTimeout batch = .offer batch := by
              rw [afterTimeout, kind]
            refine ⟨kept.reader_moves rfl solid
              (readerFacts_afterTimeout _ _) rfl
              fun isCalm => (patient isCalm).elim,
              .keep rfl rfl (held_congr rfl ?_) rfl⟩
            rw [own, same]
            rfl
        | drop =>
            have same : afterTimeout batch = .idle := by
              rw [afterTimeout, kind]
            exact giveUp_kept kept patient own rfl solid rfl rfl rfl rfl
              (Or.inl same)
      · cases taken
  | drop =>
      simp only [step] at taken
      split at taken
      · rename_i point
        cases taken
        refine ⟨kept.reader_moves rfl solid trivial rfl kept.free,
          .keep rfl rfl (held_congr rfl ?_) rfl⟩
        rw [point]
        rfl
      · rename_i batch point
        cases taken
        refine giveUp_kept kept (fun isCalm => ?_) (by rw [point]; rfl)
          rfl solid rfl rfl rfl rfl (Or.inr rfl)
        cases point.symm.trans (patient isCalm)
      · cases taken
  | call =>
      simp only [step] at taken
      split at taken <;> cases taken <;>
        exact ⟨kept.app_moves rfl rfl rfl trivial kept.free,
          .keep rfl rfl (held_congr rfl rfl) rfl⟩
  | app => exact appStep_kept kept patient taken
  | leave =>
      simp only [step] at taken
      split at taken <;> cases taken <;>
        exact ⟨kept.app_moves rfl rfl rfl trivial kept.free,
          .keep rfl rfl (held_congr rfl rfl) rfl⟩

/-! ## The messages that have not left -/

/--
The receiver as it would be between calls, with the batch at the reader task
in its ring and with room for one more.
-/
def flat (state : State) : Pipeline where
  capacity := (Priority.ALL.map fun p => (held state p).length).sum + 1
  ring := held state
  defrag := state.defrag
  congested := state.congested

/-- The rings of the flat receiver have room. -/
theorem flat_room (state : State) (p : Priority) :
    ((flat state).ring p).length < (flat state).capacity := by
  cases p <;> simp only [flat, Priority.ALL, List.map_cons, List.map_nil,
    List.sum_cons, List.sum_nil] <;> omega

variable {pending : Priority → List (List (List UInt8))}

/--
A step that decodes no batch returns a message or loses some; in a calm run
it loses none.
-/
theorem Change.flows (change : Change calm state after action)
    (silent : arrived action = [])
    (holds : (flat state).Pending pending) :
    after.defrag = state.defrag ∧
      ∃ left, (flat after).Pending left ∧
        ∀ p, (returned p after.got ++ (left p).flatten).Sublist
            (returned p state.got ++ (pending p).flatten) ∧
          (calm → returned p after.got ++ (left p).flatten =
            returned p state.got ++ (pending p).flatten) := by
  cases change with
  | decode => cases silent
  | keep _ defrag same got =>
      refine ⟨defrag, pending, fun p => ?_, fun p => ?_⟩
      · change List.Forall₂ _ (held after p) _
        rw [same]
        exact holds p
      · rw [got]
        exact ⟨List.Sublist.refl _, fun _ => rfl⟩
  | @next _ _ p batch changed rest t qos defrag before next same got =>
      rcases holds.head before with
        ⟨messages, later, queued, first, others⟩
      have spec := first.next_eq
      cases messages with
      | nil => cases next.symm.trans spec
      | cons message more =>
          rcases spec with ⟨_, _, ran, content, holdsMore⟩
          cases next.symm.trans ran
          have exactly : ∀ q, returned q after.got ++
              (Priority.update pending p (more :: later) q).flatten =
                returned q state.got ++ (pending q).flatten := by
            intro q
            rw [got, returned_append, returned_singleton,
              first.priority_eq, Priority.update_apply]
            by_cases own : q = p
            · simp [own, queued, content]
            · simp [own, Ne.symm own]
          refine ⟨defrag, Priority.update pending p (more :: later),
            holds.update p (.cons holdsMore others) same,
            fun q => ⟨?_, fun _ => exactly q⟩⟩
          rw [exactly q]
  | @remove _ _ p batch rest defrag before spent same got =>
      rcases holds.head before with
        ⟨messages, later, queued, first, others⟩
      have split : ∀ q, (pending q).flatten =
          (if q = p then messages else []) ++
            (Priority.update pending p later q).flatten := by
        intro q
        rw [Priority.update_apply]
        split
        · rename_i own
          rw [own, queued, List.flatten_cons]
        · rfl
      refine ⟨defrag, Priority.update pending p later,
        holds.update p others same, fun q => ?_⟩
      rw [got, split q]
      refine ⟨(List.Sublist.refl _).append
        (List.sublist_append_right _ _), fun isCalm => ?_⟩
      have spec := first.next_eq
      rw [spent isCalm] at spec
      cases messages with
      | nil => simp
      | cons message more =>
          rcases spec with ⟨_, _, impossible, _⟩
          cases impossible
  | @refuse _ _ p batch rest lossy defrag before same got =>
      have related := holds p
      rw [show (flat state).ring p = rest ++ [batch] from before]
        at related
      have fronts := List.forall₂_take rest.length related
      rw [List.take_left] at fronts
      have split : (pending p).flatten =
          ((pending p).take rest.length).flatten ++
            ((pending p).drop rest.length).flatten := by
        rw [← List.flatten_append, List.take_append_drop]
      refine ⟨defrag,
        Priority.update pending p ((pending p).take rest.length),
        holds.update p fronts same,
        fun q => ⟨?_, fun isCalm => absurd isCalm lossy⟩⟩
      rw [got, Priority.update_apply]
      split
      · rename_i own
        rw [own, split]
        exact (List.Sublist.refl _).append (List.sublist_append_left _ _)
      · exact List.Sublist.refl _

/-- Batches that no message decodes from hold none. -/
theorem flatten_quiet {p : Priority} {batches : List ReadBatch}
    {messages : List (List (List UInt8))}
    (holds : List.Forall₂ (HoldsMessages p) batches messages)
    (quiet : ∀ batch ∈ batches, Parser.payload batch.rest = none) :
    messages.flatten = [] := by
  induction holds with
  | nil => rfl
  | cons first _ hypothesis =>
      rw [List.forall_mem_cons] at quiet
      cases first.remaining with
      | stop _ => exact hypothesis quiet.2
      | next parsed _ => cases quiet.1.symm.trans parsed

/-! ## What one more batch brings -/

/--
Whenever some of what the sender emits has been received, the messages
returned and those queued are some of what it has completed.
-/
def Weathers (fed : List Sent) (pipe : Pipeline)
    (got : List (Bytes × QoS)) : Prop :=
  ∀ (counters : Priority → Counters)
    (messages : Priority → List (List UInt8))
    (unfinished : Priority → Option Partial),
    (∀ p, Covers p fed (counters p) (messages p) (unfinished p)) →
      ∃ pending, Survived pipe got counters messages unfinished pending

/--
Whenever all of what the sender emits has been received, the messages
returned and those queued are all of what it has completed.
-/
def Completes (fragMaxSize : Nat) (fed : List Sent) (pipe : Pipeline)
    (got : List (Bytes × QoS)) : Prop :=
  ∀ (counters : Priority → Counters)
    (messages : Priority → List (List UInt8))
    (unfinished : Priority → Option Partial),
    (∀ p, Emits p (batchesAt p fed) (counters p) (messages p)
      (unfinished p)) →
    (∀ p, ∀ message ∈ messages p,
      (encodeMessage message).length ≤ fragMaxSize) →
      ∃ pending, Complete fragMaxSize pipe got counters messages unfinished
        pending

variable {fed : List Sent} {pipe other : Pipeline}
variable {got : List (Bytes × QoS)} {fragMaxSize : Nat}

theorem weathers_new (capacity : Nat) : Weathers [] (.new capacity) [] := by
  intro counters messages unfinished covers
  refine ⟨_, (Pipeline.sound_new capacity).buffers,
    Pipeline.pending_new capacity, fun p => ?_, fun p =>
      List.nil_sublist _⟩
  rcases (covers p).emitted with ⟨sent, emits, _⟩
  have whole : Emits p ([] ++ sent) _ _ _ := emits
  rcases emits_take whole (covers p).bounded with
    ⟨earlier, fewer, part, emitted, _, _, lags⟩
  rcases emitted.nil_cases with ⟨rfl, rfl, rfl⟩
  exact lags _ (lagging_new p)

theorem completes_new (fragMaxSize capacity : Nat) :
    Completes fragMaxSize [] (.new capacity) [] := by
  intro counters messages unfinished emits limit
  refine ⟨_, (Pipeline.sound_new capacity).buffers,
    Pipeline.pending_new capacity, fun _ => rfl, fun p => ?_, fun p => ?_⟩
  · rcases (emits p).nil_cases with ⟨_, _, nothing⟩
    intro part impossible
    rw [nothing] at impossible
    cases impossible
  · rcases (emits p).nil_cases with ⟨_, nothing, _⟩
    rw [nothing]
    rfl

/-- One more batch is received. -/
theorem Weathers.push (weathers : Weathers fed pipe got) {batch : Sent}
    {chunk : Chunk} (content : chunk.asSlice = batch.image) {timer : Timer}
    {result : Except SendError Bool}
    (pushed : pipe.push (Bytes.single chunk) fragMaxSize timer =
      .ok (result, other)) : Weathers (fed ++ [batch]) other got := by
  intro counters messages unfinished covers
  rcases (covers batch.qos.priority).concat_cases with
    ⟨earlier, front, part, between, more, next, coversBefore, emit, at_,
      bounded, less, lags⟩
  have coversAll : ∀ p, Covers p fed
      (Priority.update counters batch.qos.priority earlier p)
      (Priority.update messages batch.qos.priority front p)
      (Priority.update unfinished batch.qos.priority part p) := by
    intro p
    simp only [Priority.update_apply]
    split
    · rename_i own
      rw [own]
      exact coversBefore
    · rename_i distinct
      rcases (covers p).emitted with ⟨sent, emits, sublist⟩
      rw [batchesAt_concat_other fed distinct] at sublist
      exact ⟨(covers p).bounded, sent, emits, sublist⟩
  have emitHere : Tx.Emit batch.qos.priority
      (Priority.update counters batch.qos.priority earlier
        batch.qos.priority)
      (Priority.update unfinished batch.qos.priority part
        batch.qos.priority) batch between more next := by
    rwa [Priority.update_same, Priority.update_same]
  have atHere : ∀ part', Priority.update unfinished batch.qos.priority
      part batch.qos.priority = some part' →
        part'.At batch.qos.priority := by
    rwa [Priority.update_same]
  rcases weathers _ _ _ coversAll with ⟨pending, survived⟩
  rcases survived_push fragMaxSize survived emitHere atHere bounded
      (noEmptyChunk_image content)
      (by rw [Bytes.toVec_single, content]) timer with
    ⟨_, _, left, ran, kept⟩
  cases ran.symm.trans pushed
  refine ⟨left, kept.sound, kept.holds, fun p => ?_, fun p => ?_⟩
  · have lagging := kept.lagging p
    by_cases own : p = batch.qos.priority
    · cases own
      rw [Priority.update_same, Priority.update_same] at lagging
      exact lags _ lagging
    · simpa only [Priority.update_other _ own] using lagging
  · have sublist := kept.sublist p
    by_cases own : p = batch.qos.priority
    · cases own
      rw [Priority.update_same, Priority.update_same] at sublist
      exact sublist.trans less
    · simpa only [Priority.update_other _ own] using sublist

/-- One more batch is received, and its ring has room for it. -/
theorem Completes.push (completes : Completes fragMaxSize fed pipe got)
    {batch : Sent} {chunk : Chunk} (content : chunk.asSlice = batch.image)
    (room : pipe.HasRoom fragMaxSize (Bytes.single chunk)) {timer : Timer}
    {result : Except SendError Bool}
    (pushed : pipe.push (Bytes.single chunk) fragMaxSize timer =
      .ok (result, other)) :
    Completes fragMaxSize (fed ++ [batch]) other got := by
  intro counters messages unfinished emits limit
  have own := emits batch.qos.priority
  rw [batchesAt_concat_same] at own
  rcases own.concat_cases with
    ⟨earlier, front, part, more, emitted, emit, split⟩
  have emitsAll : ∀ p, Emits p (batchesAt p fed)
      (Priority.update counters batch.qos.priority earlier p)
      (Priority.update messages batch.qos.priority front p)
      (Priority.update unfinished batch.qos.priority part p) := by
    intro p
    simp only [Priority.update_apply]
    split
    · rename_i own
      rw [own]
      exact emitted
    · rename_i distinct
      rw [← batchesAt_concat_other fed distinct]
      exact emits p
  have limitAll : ∀ p, ∀ message ∈
      Priority.update messages batch.qos.priority front p,
        (encodeMessage message).length ≤ fragMaxSize := by
    intro p message member
    simp only [Priority.update_apply] at member
    split at member
    · apply limit batch.qos.priority
      rw [split]
      exact List.mem_append_left _ member
    · exact limit p message member
  have lastLimit : ∀ message ∈ more,
      (encodeMessage message).length ≤ fragMaxSize := by
    intro message member
    apply limit batch.qos.priority
    rw [split]
    exact List.mem_append_right _ member
  have emitHere : Tx.Emit batch.qos.priority
      (Priority.update counters batch.qos.priority earlier
        batch.qos.priority)
      (Priority.update unfinished batch.qos.priority part
        batch.qos.priority) batch (counters batch.qos.priority) more
      (unfinished batch.qos.priority) := by
    rwa [Priority.update_same, Priority.update_same]
  rcases completes _ _ _ emitsAll limitAll with ⟨pending, complete⟩
  rcases complete_push complete emitHere
      (fun q => (emitsAll q).unfinished_at) lastLimit
      (noEmptyChunk_image content)
      (by rw [Bytes.toVec_single, content]) room timer with
    ⟨_, _, left, ran, kept⟩
  cases ran.symm.trans pushed
  refine ⟨left, kept.sound, kept.holds, kept.free, fun p => ?_,
    fun p => ?_⟩
  · have synced := kept.synced p
    by_cases own : p = batch.qos.priority
    · cases own
      rwa [Priority.update_same, Priority.update_same] at synced
    · simpa only [Priority.update_other _ own] using synced
  · have exactly := kept.exactly p
    by_cases own : p = batch.qos.priority
    · cases own
      rwa [Priority.update_same, Priority.update_same, ← split] at exactly
    · simpa only [Priority.update_other _ own] using exactly

/-! ## Runs -/

/-- The flat receiver takes a batch that is decoded. -/
theorem flat_push {chunk : Chunk} {fragMaxSize : Nat} {decoded : Decoded}
    {defrag : Defragmentation}
    (ran : decodeBatch state.defrag (Bytes.single chunk) fragMaxSize =
      .ok (decoded, defrag)) :
    (flat state).HasRoom fragMaxSize (Bytes.single chunk) ∧
      ∃ result later,
        (flat state).push (Bytes.single chunk) fragMaxSize .deadline =
            .ok (result, later) ∧
          later.defrag = defrag ∧ later.congested = state.congested ∧
          ∀ p, later.ring p =
            held state p ++ tailOf p (delivered decoded) := by
  have same : decodeBatch (flat state).defrag (Bytes.single chunk)
      fragMaxSize = .ok (decoded, defrag) := ran
  rw [Pipeline.HasRoom, Pipeline.push, same, ok_bind]
  cases decoded with
  | reject error =>
      refine ⟨trivial, _, _, rfl, rfl, rfl, fun p => ?_⟩
      exact (List.append_nil _).symm
  | kept =>
      refine ⟨trivial, _, _, rfl, rfl, rfl, fun p => ?_⟩
      exact (List.append_nil _).symm
  | deliver batch =>
      have room := flat_room state batch.qos.priority
      have added : ({ flat state with defrag := defrag } : Pipeline).enqueue
          batch .deadline = (.ok true,
            { flat state with
              defrag := defrag
              ring := Priority.update (held state) batch.qos.priority
                (held state batch.qos.priority ++ [batch]) }) := by
        simp only [Pipeline.enqueue, if_pos room]
        rfl
      refine ⟨room, _, _, congrArg Except.ok added, rfl, rfl, fun p => ?_⟩
      rw [delivered, tailOf_some]
      dsimp only
      rw [Priority.update_apply]
      by_cases own : p = batch.qos.priority
      · rw [if_pos own, if_pos own.symm, own]
      · rw [if_neg own, if_neg (Ne.symm own), List.append_nil]

/-- What has been received of a run, and that nothing of it is made up. -/
structure Tracks (calm : Prop) (fragMaxSize : Nat) (fed : List Sent)
    (state : State) : Prop where
  kept : Kept calm state
  weathers : Weathers fed (flat state) state.got
  completes : calm → Completes fragMaxSize fed (flat state) state.got

theorem tracks_init (calm : Prop) (fragMaxSize exponent : Nat)
    (small : exponent ≤ 7) :
    Tracks calm fragMaxSize [] (init exponent small) := by
  have kept : Kept calm (init exponent small) := kept_init exponent small
  have empty : held (init exponent small) = fun _ => [] := by
    funext p
    have holds : (init exponent small).ring.Holds fun _ => [] :=
      RingBuf.Spsc.holds_new exponent small
    rw [held, holds.queue_eq]
    rfl
  have flat_init : flat (init exponent small) = .new 1 := by
    simp only [flat, empty]
    rfl
  exact ⟨kept, flat_init ▸ weathers_new 1,
    fun _ => flat_init ▸ completes_new fragMaxSize 1⟩

/-- The limit of the reassembled length is this one at every push. -/
def Limited (fragMaxSize : Nat) : Action → Prop
  | .push _ limit => limit = fragMaxSize
  | _ => True

/-- A step that decodes the next batch, or none. -/
theorem Tracks.step (tracks : Tracks calm fragMaxSize fed state)
    (patient : calm → Patient state action ∧ Limited fragMaxSize action)
    (taken : step state action = some after) {more : List Sent}
    (same : arrived action = more.map Sent.image) :
    Tracks calm fragMaxSize (fed ++ more) after := by
  rcases step_kept tracks.kept (fun isCalm => (patient isCalm).1) taken with
    ⟨kept, change⟩
  by_cases silent : arrived action = []
  · rw [silent] at same
    have nothing : more = [] := List.map_eq_nil_iff.1 same.symm
    rw [nothing, List.append_nil]
    refine ⟨kept, ?_, fun isCalm => ?_⟩
    · intro counters messages unfinished covers
      rcases tracks.weathers _ _ _ covers with ⟨pending, survived⟩
      rcases change.flows silent survived.holds with
        ⟨defrag, left, holds, flows⟩
      refine ⟨left, kept.solid.defrag, holds, fun p => ?_, fun p =>
        (flows p).1.trans (survived.sublist p)⟩
      rw [flat, defrag]
      exact survived.lagging p
    · intro counters messages unfinished emits limit
      rcases tracks.completes isCalm _ _ _ emits limit with
        ⟨pending, complete⟩
      rcases change.flows silent complete.holds with
        ⟨defrag, left, holds, flows⟩
      refine ⟨left, kept.solid.defrag, holds, kept.free isCalm,
        fun p => ?_, fun p =>
          ((flows p).2 isCalm).trans (complete.exactly p)⟩
      rw [flat, defrag]
      exact complete.synced p
  · cases change with
    | decode chunk limit decoded nonempty ran added got =>
        rcases List.map_eq_cons_iff.1 same.symm with
          ⟨batch, rest, rfl, content, nothing⟩
        cases List.map_eq_nil_iff.1 nothing
        rcases flat_push ran with
          ⟨room, result, later, pushed, defrag, congested, ring⟩
        have sameRing : (flat after).ring = later.ring := by
          funext p
          rw [ring]
          exact added p
        have sameDefrag : (flat after).defrag = later.defrag := defrag.symm
        refine ⟨kept, ?_, fun isCalm => ?_⟩
        · have weathers := tracks.weathers.push content.symm pushed
          intro counters messages unfinished covers
          rcases weathers _ _ _ covers with ⟨pending, survived⟩
          rw [got]
          refine ⟨pending, kept.solid.defrag, ?_, fun p => ?_,
            survived.sublist⟩
          · intro p
            rw [sameRing]
            exact survived.holds p
          · rw [sameDefrag]
            exact survived.lagging p
        · have limited : limit = fragMaxSize := (patient isCalm).2
          subst limited
          have completes :=
            (tracks.completes isCalm).push content.symm room pushed
          intro counters messages unfinished emits limit
          rcases completes _ _ _ emits limit with ⟨pending, complete⟩
          rw [got]
          refine ⟨pending, kept.solid.defrag, ?_, kept.free isCalm,
            fun p => ?_, complete.exactly⟩
          · intro p
            rw [sameRing]
            exact complete.holds p
          · rw [sameDefrag]
            exact complete.synced p
    | keep quiet => exact absurd quiet silent
    | next quiet => exact absurd quiet silent
    | remove quiet => exact absurd quiet silent
    | refuse quiet => exact absurd quiet silent

/-- A run that decodes the next batches. -/
theorem Tracks.run (tracks : Tracks calm fragMaxSize fed state)
    {actions : List Action} {final : State}
    (patient : calm → Runs.Guarded Interleaved.step
      (fun state action =>
        Patient state action ∧ Limited fragMaxSize action) state actions)
    (ran : Runs.run Interleaved.step state actions = some final)
    {more : List Sent}
    (same : actions.flatMap arrived = more.map Sent.image) :
    Tracks calm fragMaxSize (fed ++ more) final := by
  induction actions generalizing state fed more with
  | nil =>
      cases ran
      rw [List.flatMap_nil] at same
      rw [List.map_eq_nil_iff.1 same.symm, List.append_nil]
      exact tracks
  | cons action actions hypothesis =>
      rcases Runs.run_cons_cases ran with ⟨middle, first, later⟩
      rw [List.flatMap_cons] at same
      rcases List.map_eq_append_iff.1 same.symm with
        ⟨here, rest, rfl, sameHere, sameRest⟩
      have stepped := tracks.step (fun isCalm => (patient isCalm).1) first
        sameHere.symm
      rw [← List.append_assoc]
      exact hypothesis stepped
        (fun isCalm => (patient isCalm).rest first) later sameRest.symm

end Interleaved
end Rx
end Thubo
