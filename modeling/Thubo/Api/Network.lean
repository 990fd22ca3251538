import Thubo.Api.ReadTask
import Thubo.Api.WriteTask
import Thubo.Pipeline.Arrivals
import Thubo.Pipeline.Closing
import Thubo.Pipeline.Framing
import Thubo.Pipeline.Linearized
import Thubo.Pipeline.Receiving

/-!
# The sender and the receiver over a byte stream

The pushes, the write task, the byte stream, the read task and the pulls take
their steps in any order.  The batches go from the pipeline to the write task
in the order in which they are handed out, the bytes from the writer to the
reader in the order in which they are accepted, and the chunks from the read
task to the receive pipeline one after another.  What a push on the receive
side returns is left free.

The messages that the application pulls are some of those that a push has
written whole, in lock order.  When nothing fails, nothing expires and nothing
is left on the way, they are all of them.  Such a push returns `Ok`, unless
the puller is dropped before its last notification.  The batch size is one
with room for the headers of a batch.
-/

namespace Thubo

open Tx (WriteBatch Sent Bounded accepted)

/-! ## A write task whose writer does not fail -/

namespace WriteTask

/-- The writer accepts something and no timer expires. -/
def Works : Action → Prop
  | .wrote n => n ≠ 0
  | .failed | .timedOut => False
  | _ => True

instance : DecidablePred Works := by
  intro action
  unfold Works
  split <;> infer_instance

/-- All batches handed out are written, or about to be. -/
def Intact (state : State) : Prop :=
  ∃ pieces, match state.phase with
    | .waiting | .flushing | .drain | .done =>
        Piece.batches pieces = state.handed ∧ state.accepted = wire pieces
    | .keepAlive left | .writing left =>
        Piece.batches pieces = state.handed ∧
          state.accepted ++ left.flatten = wire pieces
    | .drainWriting left rest =>
        Piece.batches pieces ++ rest = state.handed ∧
          state.accepted ++ left.flatten = wire pieces
    | .drainFlushing rest =>
        Piece.batches pieces ++ rest = state.handed ∧
          state.accepted = wire pieces

theorem intact_init : Intact init :=
  ⟨[], rfl, rfl⟩

/-- The drain goes on with the next batch. -/
theorem intact_nextDrained (state : State) {rest : List WriteBatch}
    {pieces : List Piece}
    (handed : Piece.batches pieces ++ rest = state.handed)
    (whole : state.accepted = wire pieces) :
    Intact { state with phase := nextDrained rest } := by
  cases rest with
  | nil =>
      rw [List.append_nil] at handed
      exact ⟨pieces, handed, whole⟩
  | cons batch rest =>
      refine ⟨pieces ++ [.batch batch], ?_, ?_⟩
      · rw [batches_append, List.append_assoc]
        exact handed
      · rw [wire_append, ← whole, flatten_slices]
        simp [wire, Piece.bytes]

/-- A call of a writer that works. -/
theorem write_works {state after : State} {left : List (List UInt8)}
    {n : Nat} {more : List (List UInt8) → Phase} {finished failed : Phase}
    (works : n ≠ 0)
    (written : write state left n more finished failed = some after) :
    ∃ taken rest, left.flatten = taken ++ rest.flatten ∧
      (rest = [] ∧ after =
          { state with
            phase := finished
            accepted := state.accepted ++ taken } ∨
        after =
          { state with
            phase := more rest
            accepted := state.accepted ++ taken }) := by
  unfold write at written
  split at written
  · cases written
  · rename_i enough
    cases written
    refine ⟨left.flatten.take n, advanceSlices left n, ?_, ?_⟩
    · rw [flatten_advanceSlices (Nat.le_of_not_lt enough),
        List.take_append_drop]
    · by_cases all : advanceSlices left n = []
      · left
        exact ⟨all, by simp [all]⟩
      · right
        have unfinished : (advanceSlices left n).isEmpty = false := by
          simpa using all
        simp [unfinished]

/-- A step of a write task whose writer works. -/
theorem step_intact {state after : State} {action : Action}
    (intact : Intact state) (works : Works action)
    (taken : step state action = some after) : Intact after := by
  rcases intact with ⟨pieces, holds⟩
  rcases state with ⟨phase, handed, accepted⟩
  cases action with
  | pulled first more =>
      cases phase <;> simp only [step] at taken <;> try cases taken
      split at taken
      · cases taken
        refine ⟨pieces ++ (first :: more).map Piece.batch, ?_, ?_⟩
        · rw [batches_append, batches_map]
          exact congrArg (· ++ _) holds.1
        · rw [wire_append, flatten_flatMap_slices]
          exact congrArg (· ++ _) holds.2
      · cases taken
  | leave =>
      cases phase <;> simp only [step] at taken <;> try cases taken
      exact ⟨pieces, holds⟩
  | keepAliveDue =>
      cases phase <;> simp only [step] at taken <;> try cases taken
      refine ⟨pieces ++ [.keepAlive], ?_, ?_⟩
      · rw [batches_append]
        exact (List.append_nil _).trans holds.1
      · rw [wire_append]
        exact congrArg (· ++ [0, 0]) holds.2
  | wrote n =>
      cases phase <;> simp only [step] at taken <;> try cases taken
      case keepAlive left =>
        rcases write_works works taken with
          ⟨front, rest, split, ⟨rfl, rfl⟩ | rfl⟩
        · exact ⟨pieces, holds.1, whole_of_split holds.2 split⟩
        · exact ⟨pieces, holds.1, rest_of_split holds.2 split⟩
      case writing left =>
        rcases write_works works taken with
          ⟨front, rest, split, ⟨rfl, rfl⟩ | rfl⟩
        · exact ⟨pieces, holds.1, whole_of_split holds.2 split⟩
        · exact ⟨pieces, holds.1, rest_of_split holds.2 split⟩
      case drainWriting left later =>
        rcases write_works works taken with
          ⟨front, rest, split, ⟨rfl, rfl⟩ | rfl⟩
        · exact ⟨pieces, holds.1, whole_of_split holds.2 split⟩
        · exact ⟨pieces, holds.1, rest_of_split holds.2 split⟩
  | flushed =>
      cases phase <;> simp only [step] at taken <;> try cases taken
      · exact ⟨pieces, holds⟩
      · exact intact_nextDrained _ holds.1 holds.2
  | failed => exact works.elim
  | timedOut => exact works.elim
  | drained batches =>
      cases phase <;> simp only [step] at taken <;> try cases taken
      exact intact_nextDrained ⟨.drain, handed ++ batches, accepted⟩
        (congrArg (· ++ _) holds.1) holds.2

/-- Nothing has been left half-way when the drain begins. -/
theorem Intact.guard {state after : State} {action : Action}
    (intact : Intact state) (taken : step state action = some after) :
    Guard state action := by
  cases action with
  | drained batches =>
      rcases intact with ⟨pieces, holds⟩
      simp only [step] at taken
      split at taken
      · rename_i phase
        rw [phase] at holds
        refine Or.inr ⟨pieces, ?_, holds.2⟩
        rw [HandedOut, holds.1]
      · cases taken
  | _ => trivial

/-- The batches that an action hands to the task. -/
def supplied : Action → List WriteBatch
  | .pulled first more => first :: more
  | .drained batches => batches
  | _ => []

/-- What a step adds to the history. -/
theorem step_history {state after : State} {action : Action}
    (taken : step state action = some after) :
    after.handed = state.handed ++ supplied action ∧
      state.accepted <+: after.accepted := by
  have same : ∀ phase, ({ state with phase := phase } : State).handed =
      state.handed ++ [] ∧ state.accepted <+: state.accepted :=
    fun _ => ⟨(List.append_nil _).symm, List.prefix_refl _⟩
  have wrote : ∀ {left n more finished failed},
      write state left n more finished failed = some after →
        after.handed = state.handed ++ [] ∧
          state.accepted <+: after.accepted := by
    intro left n more finished failed written
    rcases write_cases written with rfl | ⟨front, rest, _, ⟨_, rfl⟩ | rfl⟩
    · exact same _
    · exact ⟨(List.append_nil _).symm, List.prefix_append _ _⟩
    · exact ⟨(List.append_nil _).symm, List.prefix_append _ _⟩
  cases action with
  | pulled first more =>
      simp only [step] at taken
      split at taken
      · split at taken <;> cases taken
        exact ⟨rfl, List.prefix_refl _⟩
      · cases taken
  | drained batches =>
      simp only [step] at taken
      split at taken <;> cases taken
      exact ⟨rfl, List.prefix_refl _⟩
  | wrote n =>
      simp only [step] at taken
      split at taken
      · exact wrote taken
      · exact wrote taken
      · exact wrote taken
      · cases taken
  | _ =>
      simp only [step] at taken
      split at taken <;> cases taken <;> exact same _

end WriteTask

namespace ReadTask

/-- The bytes that an action brings to the task. -/
def brought : Action → List UInt8
  | .arrived bytes => bytes
  | _ => []

/-- What a step adds to the history. -/
theorem step_history {state after : State} {action : Action}
    (taken : step state action = some after) :
    after.consumed = state.consumed ++ brought action ∧
      state.pushes <+: after.pushes := by
  have left : leave state = some after →
      after.consumed = state.consumed ++ [] ∧
        state.pushes <+: after.pushes := by
    intro taken
    unfold leave at taken
    split at taken <;> cases taken <;>
      exact ⟨(List.append_nil _).symm, List.prefix_refl _⟩
  cases action with
  | arrived bytes =>
      simp only [step, read] at taken
      split at taken
      · split at taken <;> cases taken
        unfold readHeader
        split <;> exact ⟨rfl, List.prefix_refl _⟩
      · split at taken <;> cases taken
        unfold readBody
        split
        · exact ⟨rfl, List.prefix_append _ _⟩
        · exact ⟨rfl, List.prefix_refl _⟩
      · cases taken
      · cases taken
  | returned result =>
      simp only [step] at taken
      split at taken <;> cases taken
      exact ⟨(List.append_nil _).symm, List.prefix_refl _⟩
  | ended => exact left taken
  | timedOut => exact left taken
  | cancelled => exact left taken

end ReadTask

/-! ## The batches handed out by a step -/

namespace Tx
namespace Pipeline

variable {pipeline after : Pipeline} {p : Priority}

/-- The batches that a step has handed out. -/
def fresh (pipeline after : Pipeline) : List WriteBatch :=
  Priority.ALL.flatMap fun p =>
    (after.queues p).out.drop (pipeline.queues p).out.length

/-- A queue hands out batches of its priority only. -/
theorem out_own {queue : Queue} (sound : Sound p queue) :
    ∀ batch ∈ queue.out, batch.qos.priority = p := by
  intro batch member
  rcases List.mem_map.1 member with ⟨departure, kept, rfl⟩
  have filed : queue.stage.committed = queue.departing := sound.filed
  have departed : departure.slot.batch ∈ queue.departing := by
    rw [Queue.departing]
    simp only [List.mem_append, List.mem_map]
    exact Or.inl (Or.inl ⟨departure, (List.mem_filter.1 kept).1, rfl⟩)
  rcases sound.holds departed with ⟨shares, holds⟩
  exact holds.priority_eq

/-- A step hands out more batches of a queue, or none. -/
theorem out_extends {action : Action}
    (sound : ∀ p, Sound p (pipeline.queues p))
    (stepped : pipeline.step action = some after) (p : Priority) :
    (pipeline.queues p).out <+: (after.queues p).out := by
  rcases (step_did stepped).single with same | ⟨q, act, queue, moved, same⟩
  · simp only [same, List.prefix_rfl]
  · rw [same, Priority.update_apply]
    split
    · rename_i own
      rw [own]
      cases (sound q).linear moved with
      | silent _ left => simp only [Queue.out, left, List.prefix_rfl]
      | stages _ _ _ left => simp only [Queue.out, left, List.prefix_rfl]
      | departs slot fate _ _ left =>
          rw [out_departed left]
          exact List.prefix_append _ _
    · exact List.prefix_refl _

/-- What a step has handed out of one priority. -/
theorem fresh_filter {action : Action}
    (sound : ∀ p, Sound p (pipeline.queues p))
    (later : ∀ p, Sound p (after.queues p))
    (stepped : pipeline.step action = some after) (p : Priority) :
    (pipeline.queues p).out ++
        (fresh pipeline after).filter (fun batch =>
          batch.qos.priority = p) = (after.queues p).out := by
  have own : ∀ q, ∀ batch ∈ (after.queues q).out.drop
      (pipeline.queues q).out.length, batch.qos.priority = q :=
    fun q batch member => out_own (later q) batch (List.mem_of_mem_drop member)
  have part : ∀ q, ((after.queues q).out.drop
      (pipeline.queues q).out.length).filter (fun batch =>
        batch.qos.priority = p) =
      if q = p then
        (after.queues q).out.drop (pipeline.queues q).out.length
      else
        [] := by
    intro q
    split
    · rename_i same
      rw [List.filter_eq_self]
      intro batch member
      rw [own q batch member]
      exact decide_eq_true same
    · rename_i other
      rw [List.filter_eq_nil_iff]
      intro batch member
      rw [own q batch member, decide_eq_true_eq]
      exact other
  have whole : (fresh pipeline after).filter (fun batch =>
      batch.qos.priority = p) =
        (after.queues p).out.drop (pipeline.queues p).out.length := by
    rw [fresh, List.filter_flatMap]
    simp only [part]
    cases p <;> simp [Priority.ALL]
  rcases out_extends sound stepped p with ⟨more, extended⟩
  rw [whole, ← extended, List.drop_left]

end Pipeline
end Tx

/-! ## The network -/

/-- The sender, the receiver and what is between them. -/
structure Network where
  sender : Tx.Pipeline
  /-- The batches that the pipeline has handed out, oldest first. -/
  out : List WriteBatch
  writer : WriteTask.State
  reader : ReadTask.State
  /-- How many of the chunks read have been passed on. -/
  passed : Nat
  receiver : Rx.Interleaved.State

namespace Network

def init (capacity batchSize exponent : Nat) (small : exponent ≤ 7) :
    Network where
  sender := .new capacity batchSize
  out := []
  writer := WriteTask.init
  reader := ReadTask.init
  passed := 0
  receiver := Rx.Interleaved.init exponent small

inductive Action where
  /-- The transmit pipeline goes on. -/
  | sender (act : Tx.Pipeline.Action)
  /-- The write task goes on. -/
  | writer (act : WriteTask.Action)
  /-- The read task goes on. -/
  | reader (act : ReadTask.Action)
  /-- The read task pushes the chunk it has read. -/
  | push (fragMaxSize : Nat)
  /-- The receive pipeline goes on. -/
  | receiver (act : Rx.Interleaved.Action)

/-- The write task calls a function of the pipeline in this phase. -/
def Calls (phase : WriteTask.Phase) : Tx.Pipeline.Action → Prop
  | .pull _ => phase = .waiting
  | .drain => phase = .drain
  | .drop => phase = .done
  | _ => True

instance (phase : WriteTask.Phase) : DecidablePred (Calls phase) := by
  intro act
  unfold Calls
  split <;> infer_instance

/-- No call of the write task runs, and it gets all that is handed out. -/
def Supplies (net : Network) (batches : List WriteBatch) : Prop :=
  net.sender.puller.point = .idle ∧
    net.out = net.writer.handed ++ batches

instance (net : Network) : DecidablePred (Supplies net) := by
  intro batches
  unfold Supplies
  infer_instance

/-- What the write task is told is so. -/
def Tells (net : Network) : WriteTask.Action → Prop
  | .pulled first more => Supplies net (first :: more)
  | .drained batches =>
      net.sender.puller.drained = true ∧ Supplies net batches
  | .leave | .keepAliveDue => Supplies net []
  | .wrote _ | .flushed | .failed | .timedOut => True

instance (net : Network) : DecidablePred (Tells net) := by
  intro act
  unfold Tells
  split <;> infer_instance

/-- What the read task is given is there. -/
def Gives (net : Network) : ReadTask.Action → Prop
  | .arrived bytes =>
      net.reader.consumed ++ bytes <+: net.writer.accepted
  | .returned _ =>
      net.passed = net.reader.pushes.length ∧ net.receiver.reader = .idle
  | .ended | .timedOut | .cancelled => True

instance (net : Network) : DecidablePred (Gives net) := by
  intro act
  unfold Gives
  split <;> infer_instance

/-- The action is not the push of the read task. -/
def isOwn : Rx.Interleaved.Action → Bool
  | .push .. => false
  | _ => true

/-- One step; nothing when the action is not possible. -/
def step (net : Network) : Action → Option Network
  | .sender act =>
      if Calls net.writer.phase act then
        match net.sender.step act with
        | some after =>
            some
              { net with
                sender := after
                out := net.out ++ net.sender.fresh after }
        | none => none
      else
        none
  | .writer act =>
      if Tells net act then
        match WriteTask.step net.writer act with
        | some after => some { net with writer := after }
        | none => none
      else
        none
  | .reader act =>
      if Gives net act then
        match ReadTask.step net.reader act with
        | some after => some { net with reader := after }
        | none => none
      else
        none
  | .push fragMaxSize =>
      match net.reader.pushes[net.passed]? with
      | none => none
      | some chunk =>
          match Rx.Interleaved.step net.receiver (.push chunk fragMaxSize)
            with
          | some after =>
              some
                { net with receiver := after, passed := net.passed + 1 }
          | none => none
  | .receiver act =>
      if isOwn act then
        match Rx.Interleaved.step net.receiver act with
        | some after => some { net with receiver := after }
        | none => none
      else
        none

/-! ## What links the two ends -/

/-- Drain returns no batch when the last write was left half-way. -/
def Guard (net : Network) : Action → Prop
  | .writer act => WriteTask.Guard net.writer act
  | _ => True

/-- Nothing fails, nothing is given up and no removal is raced. -/
def Calm (fragMaxSize : Nat) (net : Network) : Action → Prop
  | .writer act => WriteTask.Works act
  | .push limit => limit = fragMaxSize
  | .receiver act => Rx.Interleaved.Patient net.receiver act
  | .sender _ | .reader _ => True

instance (fragMaxSize : Nat) : DecidableRel (Calm fragMaxSize) := by
  intro net action
  unfold Calm
  split <;> infer_instance

open Rx.Interleaved (Patient Limited arrived)

/-- A run of the receiver on the chunks that have been passed on. -/
structure Received (calm : Prop) (fragMaxSize exponent : Nat)
    (small : exponent ≤ 7) (net : Network)
    (actions : List Rx.Interleaved.Action) : Prop where
  ran : Runs.run Rx.Interleaved.step (Rx.Interleaved.init exponent small)
    actions = some net.receiver
  contents : actions.flatMap arrived =
    (ReadTask.contents net.reader).take net.passed
  patient : calm → Runs.Guarded Rx.Interleaved.step
    (fun state action => Patient state action ∧ Limited fragMaxSize action)
    (Rx.Interleaved.init exponent small) actions

/-- What each end has is some of what the other one has given. -/
structure Linked (calm : Prop)
    (fragMaxSize capacity batchSize exponent : Nat) (small : exponent ≤ 7)
    (net : Network) : Prop where
  sender : ∃ actions,
    Tx.Pipeline.run (.new capacity batchSize) actions = some net.sender
  out : ∀ p, (net.out.filter fun batch => batch.qos.priority = p) =
    (net.sender.queues p).out
  writer : WriteTask.Invariant net.writer
  intact : calm → WriteTask.Intact net.writer
  handed : net.writer.handed <+: net.out
  reader : ReadTask.Reading net.reader
  consumed : net.reader.consumed <+: net.writer.accepted
  passed : net.passed ≤ net.reader.pushes.length
  receiver : ∃ actions,
    Received calm fragMaxSize exponent small net actions

variable {calm : Prop} {fragMaxSize capacity batchSize exponent : Nat}
variable {small : exponent ≤ 7} {net after : Network} {action : Action}

theorem linked_init : Linked calm fragMaxSize capacity batchSize exponent
    small (init capacity batchSize exponent small) where
  sender := ⟨[], rfl⟩
  out _ := rfl
  writer := ⟨[], List.nil_sublist _, rfl⟩
  intact _ := WriteTask.intact_init
  handed := List.prefix_refl _
  reader := ReadTask.reading_init
  consumed := List.prefix_refl _
  passed := Nat.le_refl _
  receiver := ⟨[], rfl, rfl, fun _ => trivial⟩

/-- The transmit pipeline takes a step. -/
theorem Linked.sender_step
    (linked : Linked calm fragMaxSize capacity batchSize exponent small net)
    (most : batchSize ≤ 65535) {act : Tx.Pipeline.Action}
    {after : Tx.Pipeline} (stepped : net.sender.step act = some after) :
    Linked calm fragMaxSize capacity batchSize exponent small
      { net with
        sender := after
        out := net.out ++ net.sender.fresh after } := by
  rcases linked.sender with ⟨actions, ran⟩
  have longer := Runs.run_concat ran stepped
  refine { linked with
    sender := ⟨_, longer⟩
    out := fun p => ?_
    handed := linked.handed.trans (List.prefix_append _ _)
    receiver := ?_ }
  · rw [List.filter_append, linked.out p]
    exact Tx.Pipeline.fresh_filter (Tx.Pipeline.sound_of_run most ran)
      (Tx.Pipeline.sound_of_run most longer) stepped p
  · rcases linked.receiver with ⟨acts, received⟩
    exact ⟨acts, received.ran, received.contents, received.patient⟩

/-- The write task takes a step. -/
theorem Linked.writer_step
    (linked : Linked calm fragMaxSize capacity batchSize exponent small net)
    {act : WriteTask.Action} {after : WriteTask.State}
    (tells : Tells net act)
    (guard : calm ∨ WriteTask.Guard net.writer act)
    (works : calm → WriteTask.Works act)
    (stepped : WriteTask.step net.writer act = some after) :
    Linked calm fragMaxSize capacity batchSize exponent small
      { net with writer := after } := by
  rcases WriteTask.step_history stepped with ⟨handed, accepted⟩
  have guarded : WriteTask.Guard net.writer act := by
    rcases guard with isCalm | met
    · exact (linked.intact isCalm).guard stepped
    · exact met
  have later : after.handed <+: net.out := by
    rw [handed]
    cases act with
    | pulled first more =>
        rw [tells.2]
        exact List.prefix_refl _
    | drained batches =>
        rw [tells.2.2]
        exact List.prefix_refl _
    | _ =>
        simpa only [WriteTask.supplied, List.append_nil] using
          linked.handed
  refine { linked with
    writer := WriteTask.step_invariant linked.writer guarded stepped
    intact := fun isCalm =>
      WriteTask.step_intact (linked.intact isCalm) (works isCalm) stepped
    handed := later
    consumed := linked.consumed.trans accepted
    receiver := ?_ }
  rcases linked.receiver with ⟨acts, received⟩
  exact ⟨acts, received.ran, received.contents, received.patient⟩

/-- The read task takes a step. -/
theorem Linked.reader_step
    (linked : Linked calm fragMaxSize capacity batchSize exponent small net)
    {act : ReadTask.Action} {after : ReadTask.State}
    (gives : Gives net act)
    (stepped : ReadTask.step net.reader act = some after) :
    Linked calm fragMaxSize capacity batchSize exponent small
      { net with reader := after } := by
  rcases ReadTask.step_history stepped with ⟨consumed, pushes⟩
  refine { linked with
    reader := ReadTask.step_reading linked.reader stepped
    consumed := ?_
    passed := linked.passed.trans pushes.length_le
    receiver := ?_ }
  · rw [consumed]
    cases act with
    | arrived bytes => exact gives
    | _ =>
        simpa only [ReadTask.brought, List.append_nil] using
          linked.consumed
  · rcases linked.receiver with ⟨acts, received⟩
    refine ⟨acts, received.ran, ?_, received.patient⟩
    rcases pushes with ⟨more, extended⟩
    rw [received.contents]
    simp only [ReadTask.contents, ← extended, List.map_append]
    rw [List.take_append_of_le_length]
    rw [List.length_map]
    exact linked.passed

/-- The read task passes its chunk on. -/
theorem Linked.push_step
    (linked : Linked calm fragMaxSize capacity batchSize exponent small net)
    {limit : Nat} {chunk : Chunk} {after : Rx.Interleaved.State}
    (next : net.reader.pushes[net.passed]? = some chunk)
    (limited : calm → limit = fragMaxSize)
    (stepped : Rx.Interleaved.step net.receiver (.push chunk limit) =
      some after) :
    Linked calm fragMaxSize capacity batchSize exponent small
      { net with receiver := after, passed := net.passed + 1 } := by
  refine { linked with
    passed := (List.getElem?_eq_some_iff.1 next).1
    receiver := ?_ }
  rcases linked.receiver with ⟨acts, received⟩
  refine ⟨_, Runs.run_concat received.ran stepped, ?_, fun isCalm =>
    (received.patient isCalm).concat received.ran
      ⟨trivial, limited isCalm⟩⟩
  rw [List.flatMap_append, received.contents, List.take_add_one]
  simp [ReadTask.contents, next, arrived]

/-- The receive pipeline takes a step. -/
theorem Linked.receiver_step
    (linked : Linked calm fragMaxSize capacity batchSize exponent small net)
    {act : Rx.Interleaved.Action} {after : Rx.Interleaved.State}
    (own : isOwn act) (patient : calm → Patient net.receiver act)
    (stepped : Rx.Interleaved.step net.receiver act = some after) :
    Linked calm fragMaxSize capacity batchSize exponent small
      { net with receiver := after } := by
  refine { linked with receiver := ?_ }
  rcases linked.receiver with ⟨acts, received⟩
  have silent : arrived act = [] := by
    cases act <;> first | rfl | cases own
  have limited : Limited fragMaxSize act := by
    cases act <;> trivial
  refine ⟨_, Runs.run_concat received.ran stepped, ?_, fun isCalm =>
    (received.patient isCalm).concat received.ran
      ⟨patient isCalm, limited⟩⟩
  rw [List.flatMap_append, List.flatMap_singleton, silent, List.append_nil]
  exact received.contents

/-- Every step keeps the links. -/
theorem step_linked
    (linked : Linked calm fragMaxSize capacity batchSize exponent small net)
    (most : batchSize ≤ 65535) (guard : calm ∨ Guard net action)
    (isCalm : calm → Calm fragMaxSize net action)
    (stepped : step net action = some after) :
    Linked calm fragMaxSize capacity batchSize exponent small after := by
  cases action with
  | sender act =>
      simp only [step] at stepped
      split at stepped
      · split at stepped
        · rename_i moved
          cases stepped
          exact linked.sender_step most moved
        · cases stepped
      · cases stepped
  | writer act =>
      simp only [step] at stepped
      split at stepped
      · rename_i tells
        split at stepped
        · rename_i moved
          cases stepped
          exact linked.writer_step tells guard isCalm moved
        · cases stepped
      · cases stepped
  | reader act =>
      simp only [step] at stepped
      split at stepped
      · rename_i gives
        split at stepped
        · rename_i moved
          cases stepped
          exact linked.reader_step gives moved
        · cases stepped
      · cases stepped
  | push limit =>
      simp only [step] at stepped
      split at stepped
      · cases stepped
      · rename_i chunk next
        split at stepped
        · rename_i moved
          cases stepped
          exact linked.push_step next isCalm moved
        · cases stepped
  | receiver act =>
      simp only [step] at stepped
      split at stepped
      · rename_i own
        split at stepped
        · rename_i moved
          cases stepped
          exact linked.receiver_step own isCalm moved
        · cases stepped
      · cases stepped

/-! ## What the application gets -/

/-- The batches of the pieces have been handed out. -/
theorem Linked.inOrder
    (linked : Linked calm fragMaxSize capacity batchSize exponent small net)
    {out : List WriteBatch} (some_ : out.Sublist net.out) :
    Tx.Pipeline.HandedInOrder net.sender out := by
  intro p
  rw [← linked.out p]
  exact some_.filter _

/-- What the receiver gets of a stream that has been read in part. -/
theorem Linked.arrives
    (linked : Linked calm fragMaxSize capacity batchSize exponent small net)
    {pieces : List Piece} (begins : net.writer.accepted <+: wire pieces)
    {fed : List Sent}
    (cuts : Rx.cut (wire pieces) = fed.map Sent.image)
    {actions : List Rx.Interleaved.Action}
    (received : Received calm fragMaxSize exponent small net actions) :
    ∃ count, actions.flatMap arrived =
      (fed.take count).map Sent.image := by
  rcases linked.consumed.trans begins with ⟨more, extended⟩
  have early : ReadTask.contents net.reader <+: fed.map Sent.image := by
    rw [linked.reader.cut, ← cuts, ← extended]
    exact Rx.cut_extends _ _
  have contents := received.contents
  rw [List.prefix_iff_eq_take.1 early, List.take_take, ← List.map_take]
    at contents
  exact ⟨_, contents⟩

/--
In every run in which drain returns no batch when the last write was left
half-way, and in which no sequence number and no fragment identifier is used
twice, the messages pulled from a priority are some of those that a push has
written whole, in lock order: a push that is on its way, has returned `Ok`, or
has returned `Closed` for its last notification.  The writer may fail, the
stream may end anywhere, timers may expire, and either end may discard
batches.  The batch size is from 19 to 65535.
-/
theorem survives_of_run (least : 19 ≤ batchSize) (most : batchSize ≤ 65535)
    {actions : List Action}
    (guarded : Runs.Guarded step Guard
      (init capacity batchSize exponent small) actions)
    (ran : Runs.run step (init capacity batchSize exponent small) actions =
      some net)
    (bounded : ∀ p, Bounded (net.sender.queues p).stage.used)
    (p : Priority) :
    (Rx.returned p net.receiver.got).Sublist
        (accepted (net.sender.queues p).stage.log) ∧
      Tx.Vouched (net.sender.queues p) := by
  have linked : Linked False 0 capacity batchSize exponent small net :=
    Runs.invariant
      (fun _ _ _ linked guard stepped =>
        step_linked linked most (Or.inr guard) False.elim stepped)
      linked_init guarded ran
  rcases linked.writer.framed with ⟨pieces, handedOut, begins⟩
  rcases linked.sender with ⟨sending, sent⟩
  have inOrder := linked.inOrder (handedOut.trans linked.handed.sublist)
  rcases Tx.Pipeline.ordered_of_run least most sent inOrder with
    ⟨serial, ordered, out, stage, _⟩
  rcases exists_fed ordered with
    ⟨fed, emitted, counters, messages, unfinished, fed_⟩
  have cuts : Rx.cut (wire pieces) = fed.map Sent.image := by
    rw [cut_wire, ← out, fed_.contents]
    intro batch member
    rw [← out] at member
    exact fed_.sized ordered member
  rcases linked.receiver with ⟨receiving, received⟩
  rcases linked.arrives begins cuts received with ⟨count, arrives⟩
  have tracks := (Rx.Interleaved.tracks_init False 0 exponent small).run
    False.elim received.ran arrives
  rw [List.nil_append] at tracks
  have covers : ∀ q, Rx.Covers q (fed.take count) (counters q) (messages q)
      (unfinished q) := by
    intro q
    have used := bounded q
    rw [← stage q] at used
    exact ⟨bounded_counters (fed_.describes q) used, emitted q,
      (fed_.describes q).emits,
      ((List.take_sublist count fed).filter _).trans (fed_.sublist q)⟩
  rcases tracks.weathers counters messages unfinished covers with
    ⟨pending, survived⟩
  refine ⟨?_, (Tx.Pipeline.sound_of_run most sent p).vouched⟩
  rw [← stage p]
  exact ((List.sublist_append_left _ _).trans (survived.sublist p)).trans
    (messages_sublist (fed_.describes p))

/-! ## What the receiver is given -/

/-- A batch that a priority emits declares its kind. -/
theorem kindDefined_image (sent : Sent) : Rx.KindDefined sent.image := by
  cases sent with
  | frame qos seqNum messages =>
      rw [Rx.KindDefined, Tx.message_image_frame]
      trivial
  | fragment qos seqNum fragId kind payload =>
      rw [Rx.KindDefined, Tx.message_image_fragment]
      exact (FragmentHeader.kind_ok_iff _).1
        ⟨kind, FragmentHeader.kind_new kind fragId⟩

/-- The contents read are batches that the sender has emitted. -/
theorem Linked.emitted
    (linked : Linked calm fragMaxSize capacity batchSize exponent small net)
    (least : 19 ≤ batchSize) (most : batchSize ≤ 65535) :
    ∀ content ∈ ReadTask.contents net.reader,
      ∃ sent : Sent, content = sent.image := by
  rcases linked.writer.framed with ⟨pieces, handedOut, begins⟩
  rcases linked.sender with ⟨sending, ran⟩
  have inOrder := linked.inOrder (handedOut.trans linked.handed.sublist)
  rcases Tx.Pipeline.ordered_of_run least most ran inOrder with
    ⟨serial, ordered, out, _, _⟩
  rcases exists_fed ordered with
    ⟨fed, emitted, counters, messages, unfinished, fed_⟩
  have cuts : Rx.cut (wire pieces) = fed.map Sent.image := by
    rw [cut_wire, ← out, fed_.contents]
    intro batch member
    rw [← out] at member
    exact fed_.sized ordered member
  rcases linked.consumed.trans begins with ⟨more, extended⟩
  have early : ReadTask.contents net.reader <+: fed.map Sent.image := by
    rw [linked.reader.cut, ← cuts, ← extended]
    exact Rx.cut_extends _ _
  intro content member
  rcases List.mem_map.1 (early.subset member) with ⟨sent, _, same⟩
  exact ⟨sent, same.symm⟩

/--
In every run in which drain returns no batch when the last write was left
half-way, the receive pipeline takes every chunk that the read task has read,
however the bytes were cut and whatever has failed: no batch that reaches it
carries kind bits that are reinterpreted outside their enumeration.  The batch
size is from 19 to 65535.
-/
theorem receives_of_run (least : 19 ≤ batchSize) (most : batchSize ≤ 65535)
    {actions : List Action}
    (guarded : Runs.Guarded step Guard
      (init capacity batchSize exponent small) actions)
    (ran : Runs.run step (init capacity batchSize exponent small) actions =
      some net) {chunk : Chunk}
    (next : net.reader.pushes[net.passed]? = some chunk)
    (idle : net.receiver.reader = .idle) (limit : Nat) :
    ∃ after, step net (.push limit) = some after ∧
      after.passed = net.passed + 1 := by
  have linked : Linked False 0 capacity batchSize exponent small net :=
    Runs.invariant
      (fun _ _ _ linked guard stepped =>
        step_linked linked most (Or.inr guard) False.elim stepped)
      linked_init guarded ran
  have member : chunk.asSlice ∈ ReadTask.contents net.reader :=
    List.mem_map_of_mem (List.mem_of_getElem? next)
  rcases linked.emitted least most _ member with ⟨sent, content⟩
  have solid := Rx.noEmptyChunk_image content
  have nonempty : chunk.len ≠ 0 := by
    rw [← chunk.length_asSlice, content]
    exact Nat.pos_iff_ne_zero.1 sent.length_image_pos
  have defined : Rx.KindDefined (Bytes.single chunk).toVec := by
    rw [Bytes.toVec_single, content]
    exact kindDefined_image sent
  rcases linked.receiver with ⟨receiving, received⟩
  have running := Rx.Interleaved.running_of_run received.ran
  rcases Rx.decodeBatch_sound solid defined running.kept.solid.defrag limit
    with ⟨decoded, defrag, decodes, _, _⟩
  have pushed : ∃ receiver,
      Rx.Interleaved.step net.receiver (.push chunk limit) =
        some receiver := by
    simp only [Rx.Interleaved.step, idle, nonempty, if_false, decodes]
    exact ⟨_, rfl⟩
  rcases pushed with ⟨receiver, pushed⟩
  refine ⟨{ net with receiver := receiver, passed := net.passed + 1 },
    ?_, rfl⟩
  simp only [step, next, pushed]

/-- The action is not the end of a drain. -/
def Undrained : Action → Prop
  | .writer (.drained _) => False
  | _ => True

instance : DecidablePred Undrained := by
  intro action
  unfold Undrained
  split <;> infer_instance

/-- A run without a drain is guarded. -/
theorem guarded_undrained {actions : List Action}
    (undrained : ∀ action ∈ actions, Undrained action) :
    Runs.Guarded step Guard net actions := by
  refine Runs.guarded_of_all fun action member state => ?_
  have kept := undrained action member
  cases action with
  | writer act =>
      cases act with
      | drained batches => exact kept.elim
      | _ => trivial
  | _ => trivial

/-- The batch of the message. -/
def sampleBatch : WriteBatch where
  frame := ⟨102, [7, 0, 9, 1, 0, 3, 1, 2, 3], by decide⟩
  fragment := .new
  qos := ⟨9⟩
  drop := none

/-- A message is pushed, written at once, read in three pieces and pulled. -/
def sampleRun : List Action :=
  [.sender (.call Tx.Pipeline.shortMessage ⟨9⟩)] ++
    List.replicate 12 (.sender (.push .medium 0)) ++
      [.sender (.pull .tryPull)] ++
        List.replicate 6 (.sender (.puller false)) ++
  [.writer (.pulled sampleBatch []), .writer (.wrote 9), .writer .flushed,
    .reader (.arrived [7]), .reader (.arrived [0]),
    .reader (.arrived [9, 1, 0, 3, 1, 2, 3]), .push 100,
    .receiver .reader, .receiver .reader, .receiver .reader,
    .reader (.returned (.ok true)), .receiver .call, .receiver .app,
    .receiver .app, .receiver .app]

theorem survives_of_run_sample :
    ∃ net : Network, net.receiver.got.length = 1 ∧
      (Rx.returned .medium net.receiver.got).Sublist
          (accepted (net.sender.queues .medium).stage.log) ∧
        Tx.Vouched (net.sender.queues .medium) := by
  have undrained : ∀ action ∈ sampleRun, Undrained action := by
    decide +kernel
  have passed : (Runs.run step (init 1 100 1 (by decide)) sampleRun).any
      (fun net => net.receiver.got.length = 1 ∧
        ∀ p, (∀ cc ∈ [CongestionControl.block, .drop],
          (net.sender.queues p).stage.used.sent cc < 2 ^ 28) ∧
            (net.sender.queues p).stage.used.fragmented < 2 ^ 28) =
        true := by
    decide +kernel
  rcases Runs.exists_of_any passed with ⟨net, ran, checked⟩
  rcases of_decide_eq_true checked with ⟨got, used⟩
  have bounded : ∀ p, Bounded (net.sender.queues p).stage.used := by
    intro p
    refine ⟨fun cc => (used p).1 cc ?_, (used p).2⟩
    cases cc <;> decide
  exact ⟨net, got, survives_of_run (by decide) (by decide)
    (guarded_undrained undrained) ran bounded .medium⟩

/-- A chunk has been read and is about to be passed on. -/
theorem receives_of_run_sample :
    ∃ net after : Network, net.reader.pushes.length = 1 ∧
      step net (.push 100) = some after ∧
        after.passed = net.passed + 1 := by
  have undrained : ∀ action ∈ sampleRun.take 26, Undrained action := by
    decide +kernel
  have passed : (Runs.run step (init 1 100 1 (by decide))
      (sampleRun.take 26)).any (fun net =>
        net.receiver.reader = .idle ∧ net.passed = 0 ∧
          net.reader.pushes.length = 1) = true := by
    decide +kernel
  rcases Runs.exists_of_any passed with ⟨net, ran, checked⟩
  rcases of_decide_eq_true checked with ⟨idle, first, one⟩
  rcases List.length_eq_one_iff.1 one with ⟨chunk, pushes⟩
  have next : net.reader.pushes[net.passed]? = some chunk := by
    rw [first, pushes]
    rfl
  rcases receives_of_run (by decide) (by decide)
      (guarded_undrained undrained) ran next idle 100 with
    ⟨after, stepped, counted⟩
  exact ⟨net, after, one, stepped, counted⟩

/-- Nothing is on the way any more, and the sender has discarded nothing. -/
structure AtRest (net : Network) : Prop where
  emptied : ∀ p, Tx.Pipeline.Emptied (net.sender.queues p)
  handed : net.writer.handed = net.out
  written : net.writer.phase = .waiting ∨ net.writer.phase = .done
  consumed : net.reader.consumed = net.writer.accepted
  passed : net.passed = net.reader.pushes.length
  inserted : net.receiver.reader.batch = none
  quiet : Rx.Interleaved.Quiet net.receiver

instance (net : Network) : Decidable (AtRest net) :=
  decidable_of_iff
    ((∀ p, Tx.Pipeline.Emptied (net.sender.queues p)) ∧
      net.writer.handed = net.out ∧
      (net.writer.phase = .waiting ∨ net.writer.phase = .done) ∧
      net.reader.consumed = net.writer.accepted ∧
      net.passed = net.reader.pushes.length ∧
      net.receiver.reader.batch = none ∧
      Rx.Interleaved.Quiet net.receiver)
    ⟨fun ⟨emptied, handed, written, consumed, passed, inserted, quiet⟩ =>
        ⟨emptied, handed, written, consumed, passed, inserted, quiet⟩,
      fun rest => ⟨rest.emptied, rest.handed, rest.written, rest.consumed,
        rest.passed, rest.inserted, rest.quiet⟩⟩

/--
In every run in which the writer works, nothing is given up on the receive
side and no removal is raced, the messages pulled from a priority at rest are
exactly those that a push has written whole, in lock order.  All those whose
push has returned `Ok` are among them, and the others are of a push that is on
its way or has returned `Closed` for its last notification.  The batch size is
from 19 to 65535.
-/
theorem delivers_of_run (least : 19 ≤ batchSize) (most : batchSize ≤ 65535)
    {actions : List Action}
    (isCalm : Runs.Guarded step (Calm fragMaxSize)
      (init capacity batchSize exponent small) actions)
    (ran : Runs.run step (init capacity batchSize exponent small) actions =
      some net) (rest : AtRest net)
    (limit : ∀ p, ∀ message ∈ accepted (net.sender.queues p).stage.log,
      (Tx.encodeMessage message).length ≤ fragMaxSize) (p : Priority) :
    Rx.returned p net.receiver.got =
        accepted (net.sender.queues p).stage.log ∧
      Tx.Vouched (net.sender.queues p) := by
  have linked :
      Linked True fragMaxSize capacity batchSize exponent small net :=
    Runs.invariant
      (fun _ _ _ linked met stepped =>
        step_linked linked most (Or.inl trivial) (fun _ => met) stepped)
      linked_init isCalm ran
  -- all batches are on the wire
  rcases linked.intact trivial with ⟨pieces, holds⟩
  have whole : Piece.batches pieces = net.writer.handed ∧
      net.writer.accepted = wire pieces := by
    rcases rest.written with phase | phase <;> rwa [phase] at holds
  rcases linked.sender with ⟨sending, sent⟩
  rcases Tx.Pipeline.drained_of_run least most sent rest.emptied linked.out
    with ⟨serial, ordered, drained, lossless, out, stage⟩
  rcases exists_fed ordered with
    ⟨fed, emitted, counters, messages, unfinished, fed_⟩
  have all := fed_.all lossless drained
  have log : ∀ q, accepted (net.sender.queues q).stage.log = messages q :=
    fun q => stage q ▸ (all q).2
  have cuts : Rx.cut (wire pieces) = fed.map Sent.image := by
    rw [cut_wire, whole.1, rest.handed, ← out, fed_.contents]
    intro batch member
    rw [whole.1, rest.handed, ← out] at member
    exact fed_.sized ordered member
  -- the receiver has got all of them
  rcases linked.receiver with ⟨receiving, received⟩
  have arrives : receiving.flatMap arrived = fed.map Sent.image := by
    have contents := received.contents
    rw [rest.passed, ReadTask.contents, ← List.map_take, List.take_length]
      at contents
    rw [contents, ← cuts, ← whole.2, ← rest.consumed, ← linked.reader.cut,
      ReadTask.contents]
  have tracks :=
    (Rx.Interleaved.tracks_init True fragMaxSize exponent small).run
      received.patient received.ran arrives
  rw [List.nil_append] at tracks
  have emits : ∀ q, Tx.Emits q (Rx.batchesAt q fed) (counters q)
      (messages q) (unfinished q) := by
    intro q
    rw [(all q).1]
    exact (fed_.describes q).emits
  rcases tracks.completes trivial counters messages unfinished emits
      (fun q => log q ▸ limit q) with ⟨pending, complete⟩
  refine ⟨?_, (Tx.Pipeline.sound_of_run most sent p).vouched⟩
  rw [log p, ← complete.exactly p]
  have nothing : (pending p).flatten = [] := by
    refine Rx.Interleaved.flatten_quiet (complete.holds p) ?_
    intro batch member
    apply rest.quiet p
    change batch ∈ Rx.Interleaved.held net.receiver p at member
    rwa [Rx.Interleaved.held, rest.inserted, Rx.Interleaved.tailOf_none,
      List.append_nil] at member
  rw [nothing, List.append_nil]

theorem delivers_of_run_sample :
    ∃ net : Network, net.receiver.got.length = 1 ∧
      Rx.returned .medium net.receiver.got =
          accepted (net.sender.queues .medium).stage.log ∧
        Tx.Vouched (net.sender.queues .medium) := by
  have isCalm : Runs.Guarded step (Calm 100) (init 1 100 1 (by decide))
      sampleRun := by
    decide +kernel
  have passed : (Runs.run step (init 1 100 1 (by decide)) sampleRun).any
      (fun net => net.receiver.got.length = 1 ∧ AtRest net ∧
        ∀ p, ∀ message ∈ accepted (net.sender.queues p).stage.log,
          (Tx.encodeMessage message).length ≤ 100) = true := by
    decide +kernel
  rcases Runs.exists_of_any passed with ⟨net, ran, checked⟩
  rcases of_decide_eq_true checked with ⟨got, rest, limit⟩
  exact ⟨net, got, delivers_of_run (by decide) (by decide) isCalm ran rest
    limit .medium⟩

end Network
end Thubo
