import Thubo.Pipeline.Reassembly

/-!
# The receiver as four queues

An inbox holds, for every priority, the complete messages that nobody has
taken yet, oldest first, and for every stream the message that is open: a
first fragment opens one, a fragment that does not continue it closes it, and
a last fragment completes it.  Receiving a frame adds its messages to the
queue of its priority, and taking a message takes the oldest one of the
highest priority that has one.

Calls of the pipeline that find room in its rings answer as the inbox does, as
long as no buffer expects a fragment of a message that is not open.
-/

namespace Thubo
namespace Rx

open Tx (Sent encodeMessage)

/-! ## The inbox -/

/-- The messages that decode one after another, at most `limit` of them. -/
def messagesWithin : Nat → List UInt8 → List (List UInt8)
  | 0, _ => []
  | limit + 1, content =>
      match Parser.payload content with
      | none => []
      | some (message, rest) => message :: messagesWithin limit rest

/-- The messages in reassembled bytes.  Every message takes a byte. -/
def messagesOf (content : List UInt8) : List (List UInt8) :=
  messagesWithin content.length content

theorem remaining_within {limit : Nat} {content : List UInt8}
    (enough : content.length ≤ limit) :
    Remaining content (messagesWithin limit content) := by
  induction limit generalizing content with
  | zero =>
      have empty := List.length_eq_zero_iff.1 (Nat.le_zero.1 enough)
      rw [empty]
      exact .stop rfl
  | succ limit hypothesis =>
      unfold messagesWithin
      cases parsed : Parser.payload content with
      | none => exact .stop parsed
      | some result =>
          have shorter := Parser.length_payload parsed
          exact .next parsed (hypothesis (by omega))

theorem remaining_messagesOf (content : List UInt8) :
    Remaining content (messagesOf content) :=
  remaining_within (Nat.le_refl _)

/-- Bytes hold one sequence of messages. -/
theorem Remaining.unique {content : List UInt8}
    {left right : List (List UInt8)} (first : Remaining content left)
    (second : Remaining content right) : left = right := by
  induction first generalizing right with
  | stop finished =>
      cases second with
      | stop => rfl
      | next parsed later =>
          rw [finished] at parsed
          cases parsed
  | next parsed later hypothesis =>
      cases second with
      | stop finished =>
          rw [parsed] at finished
          cases finished
      | next again more =>
          rw [parsed] at again
          cases again
          rw [hypothesis more]

/-- The fragments of a finished message make up that message. -/
theorem messagesOf_encodeMessage {message : List UInt8}
    (bounded : message.length < 2 ^ 64) :
    messagesOf (encodeMessage message) = [message] := by
  apply (remaining_messagesOf _).unique
  have whole : Remaining ([message].flatMap encodeMessage) [message] :=
    remaining_flatMap (by simpa)
  simpa using whole

/-- The part of a message that a stream has received. -/
structure Assembly where
  /-- Number of the fragment that would continue the message. -/
  seqNum : SeqNum
  fragId : SeqNum
  front : List UInt8
deriving DecidableEq, Repr

/-- A fragment that continues the message and keeps it within the limit. -/
def Assembly.Continues (assembly : Assembly) (seqNum fragId : SeqNum)
    (payload : List UInt8) (limit : Nat) : Prop :=
  seqNum = assembly.seqNum ∧ fragId = assembly.fragId ∧
    assembly.front.length + payload.length ≤ limit

instance (assembly : Assembly) (seqNum fragId : SeqNum)
    (payload : List UInt8) (limit : Nat) :
    Decidable (assembly.Continues seqNum fragId payload limit) := by
  unfold Assembly.Continues
  infer_instance

/-- Four queues of messages, and the message of each stream that is open. -/
structure Inbox where
  queue : Priority → List (List UInt8)
  assembly : Stream → Option Assembly

namespace Inbox

def new : Inbox :=
  ⟨fun _ => [], fun _ => none⟩

/-- Add messages to the queue of a priority. -/
def add (inbox : Inbox) (priority : Priority)
    (messages : List (List UInt8)) : Inbox :=
  { inbox with
    queue := Priority.update inbox.queue priority
      (inbox.queue priority ++ messages) }

theorem add_nil (inbox : Inbox) (p : Priority) : inbox.add p [] = inbox := by
  have same : Priority.update inbox.queue p (inbox.queue p ++ []) =
      inbox.queue := by
    funext q
    rw [Priority.update_apply, List.append_nil]
    split
    · rename_i same
      rw [same]
    · rfl
  rw [add, same]

theorem queue_add (inbox : Inbox) (p : Priority)
    (messages : List (List UInt8)) (q : Priority) :
    (inbox.add p messages).queue q =
      inbox.queue q ++ if q = p then messages else [] := by
  change Priority.update _ _ _ q = _
  rw [Priority.update_apply]
  split
  · rename_i same
    rw [same]
  · rw [List.append_nil]

/-- Open a message of a stream, or close it. -/
def set (inbox : Inbox) (stream : Stream) (assembly : Option Assembly) :
    Inbox :=
  { inbox with
    assembly := fun other =>
      if other = stream then assembly else inbox.assembly other }

/-- What a fragment makes of the open message that it continues. -/
def continued (limit : Nat) (inbox : Inbox) (stream : Stream)
    (seqNum fragId : SeqNum) (payload : List UInt8) :
    Option (List UInt8) :=
  match inbox.assembly stream with
  | some assembly =>
      if assembly.Continues seqNum fragId payload limit then
        some (assembly.front ++ payload)
      else
        none
  | none => none

/-- Receive the content of a batch. -/
def receive (limit : Nat) (inbox : Inbox) : Sent → Inbox
  | .frame qos _ messages => inbox.add qos.priority messages
  | .fragment qos seqNum fragId kind payload =>
      let continued :=
        inbox.continued limit (stream qos) seqNum fragId payload
      match kind with
      | .first =>
          inbox.set (stream qos)
            (if payload.length ≤ limit then
              some ⟨seqNum.next, fragId, payload⟩
            else
              none)
      | .more =>
          inbox.set (stream qos)
            (continued.map fun front => ⟨seqNum.next, fragId, front⟩)
      | .last =>
          (inbox.set (stream qos) none).add qos.priority
            (continued.elim [] messagesOf)

/-- The highest priority that has a message. -/
def ready (inbox : Inbox) : Option Priority :=
  Priority.ALL.find? fun priority => !(inbox.queue priority).isEmpty

/-- Take the oldest message of the highest priority that has one. -/
def take (inbox : Inbox) : Option (Priority × List UInt8) × Inbox :=
  match inbox.ready with
  | none => (none, inbox)
  | some priority =>
      match inbox.queue priority with
      | [] => (none, inbox)
      | message :: later =>
          (some (priority, message),
            { inbox with
              queue := Priority.update inbox.queue priority later })

/-- What is asked of the inbox. -/
inductive Request where
  | receive (batch : Sent)
  | take
deriving DecidableEq, Repr

/-- Answer one request. -/
def answer (limit : Nat) (inbox : Inbox) :
    Request → Option (Priority × List UInt8) × Inbox
  | .receive batch => (none, inbox.receive limit batch)
  | .take => inbox.take

/-- Answer requests one after another. -/
def serve (limit : Nat) :
    Inbox → List Request →
      List (Option (Priority × List UInt8)) × Inbox
  | inbox, [] => ([], inbox)
  | inbox, request :: requests =>
      let (reply, inbox) := inbox.answer limit request
      let (replies, inbox) := serve limit inbox requests
      (reply :: replies, inbox)

/-! ## Taking a message -/

/-- A priority is ready when it has a message and no higher one has. -/
theorem ready_eq_some {inbox : Inbox} {p : Priority}
    (waiting : inbox.queue p ≠ [])
    (higher : ∀ q : Priority, q.toNat < p.toNat → inbox.queue q = []) :
    inbox.ready = some p := by
  apply Priority.find?_ALL_eq_some.2
  constructor
  · simpa using waiting
  · intro q before
    simp [higher q before]

theorem ready_eq_none {inbox : Inbox}
    (empty : ∀ p, inbox.queue p = []) : inbox.ready = none := by
  apply List.find?_eq_none.2
  intro p _
  simp [empty p]

theorem take_empty {inbox : Inbox} (empty : ∀ p, inbox.queue p = []) :
    inbox.take = (none, inbox) := by
  rw [take, ready_eq_none empty]

theorem take_cons {inbox : Inbox} {p : Priority} {message : List UInt8}
    {later : List (List UInt8)} (waiting : inbox.queue p = message :: later)
    (higher : ∀ q : Priority, q.toNat < p.toNat → inbox.queue q = []) :
    inbox.take = (some (p, message),
      { inbox with queue := Priority.update inbox.queue p later }) := by
  have ready := ready_eq_some (by rw [waiting]; simp) higher
  simp only [take, ready, waiting]

end Inbox

/-! ## The pipeline behind the inbox -/

/-- A buffer holds what a stream has received. -/
def DefragBuffer.Assembles (dbuf : DefragBuffer) (assembly : Assembly) :
    Prop :=
  dbuf.seqNum = assembly.seqNum ∧ dbuf.fragId = assembly.fragId ∧
    dbuf.buffer.toVec = assembly.front

/-- A buffer expects the fragments that continue its message. -/
theorem DefragBuffer.Assembles.expects_iff {dbuf : DefragBuffer}
    {assembly : Assembly} (assembles : dbuf.Assembles assembly)
    (arrival : Arrival) (limit : Nat) :
    dbuf.Expects arrival limit ↔
      assembly.Continues arrival.seqNum arrival.fragId arrival.payload
        limit := by
  rcases assembles with ⟨sameNumber, sameId, sameBytes⟩
  rw [DefragBuffer.Expects, Assembly.Continues, sameNumber, sameId,
    ← sameBytes, Bytes.length_toVec]

/--
A state of the pipeline that an inbox describes.  The messages that are open
are those of the fragments received so far.
-/
structure Represents (reception : Reception) (state : Pipeline)
    (inbox : Inbox) (pending : Priority → List (List (List UInt8))) :
    Prop where
  holds : state.Pending pending
  queue_eq : ∀ p, inbox.queue p = (pending p).flatten
  free : state.Uncongested
  sound : state.defrag.Sound
  received : reception.defrag = state.defrag
  opened : ∀ stream,
    Open reception.trace stream ↔ inbox.assembly stream ≠ none
  assembles : ∀ stream assembly, inbox.assembly stream = some assembly →
    (state.defrag.get stream).Assembles assembly

theorem represents_new (capacity : Nat) :
    Represents .new (.new capacity) .new fun _ => [] where
  holds := Pipeline.pending_new capacity
  queue_eq _ := rfl
  free _ := rfl
  sound := (Pipeline.sound_new capacity).buffers
  received := rfl
  opened stream := by
    constructor
    · intro opened
      cases opened
    · intro open_
      exact absurd rfl open_
  assembles stream assembly impossible := by
    cases impossible

variable {reception : Reception}
variable {state : Pipeline} {inbox : Inbox}
variable {pending : Priority → List (List (List UInt8))}

/-! ### A pull -/

/-- The rings above the one a message comes from are empty. -/
theorem tryPullLoop_highest {rounds : Nat} {after : Pipeline} {t : Bytes}
    {qos : QoS} (holds : state.Pending pending)
    (pulled : state.tryPullLoop rounds = .ok (some (t, qos), after))
    (q : Priority) (before : q.toNat < qos.priority.toNat) :
    after.ring q = [] := by
  induction rounds generalizing state pending with
  | zero => cases pulled
  | succ rounds hypothesis =>
      unfold Pipeline.tryPullLoop at pulled
      cases found : state.ready with
      | none =>
          rw [found] at pulled
          cases pulled
      | some p =>
          rcases Pipeline.ready_some found with ⟨batch, more, ring⟩
          rcases holds.head ring with ⟨messages, later, _, first, rest⟩
          have removed : ((state.unsetCongested
              batch.qos.priority).removeHead p).Pending
                (Priority.update pending p later) :=
            holds.update p rest (by
              rw [Pipeline.removeHead, Pipeline.unsetCongested, ring]
              rfl)
          rw [found] at pulled
          dsimp only at pulled
          rw [ring] at pulled
          dsimp only at pulled
          split at pulled
          · exact hypothesis removed pulled
          · cases next : batch.next with
            | error fault =>
                rw [next] at pulled
                cases pulled
            | ok result =>
                cases result with
                | none =>
                    rw [next] at pulled
                    exact hypothesis removed pulled
                | some result =>
                    rcases result with ⟨_, _, advanced⟩
                    rw [next] at pulled
                    cases pulled
                    have same := (ReadBatch.next_qos next).1
                    rw [same, first.priority_eq] at before
                    have other : q ≠ p := by
                      rintro rfl
                      exact Nat.lt_irrefl _ before
                    change Priority.update state.ring p _ q = []
                    rw [Priority.update_other _ other]
                    exact Pipeline.ready_above found q before

/-- A pull takes the message that the inbox gives out. -/
theorem represents_tryPull
    (represents : Represents reception state inbox pending) :
    ∃ result after left, state.tryPull = .ok (result, after) ∧
      result.map (fun (t, qos) => (qos.priority, t.toVec)) =
        inbox.take.1 ∧
      Represents reception after inbox.take.2 left := by
  rcases Pipeline.tryPull_pulls represents.holds with
    ⟨result, after, left, lost, run, pulls⟩
  rcases pulls.free represents.free with ⟨stays, nothing⟩
  have split : ∀ p, inbox.queue p =
      returned p result.toList ++ (left p).flatten := by
    intro p
    rw [represents.queue_eq, pulls.split, nothing, List.nil_append]
  have same : after.defrag = state.defrag := pulls.defrag_eq
  have related : ∀ next : Inbox, next.assembly = inbox.assembly →
      (∀ p, next.queue p = (left p).flatten) →
        Represents reception after next left := by
    intro next assembly queue
    refine ⟨pulls.holds, queue, stays, ?_, ?_, ?_, ?_⟩
    · rw [same]
      exact represents.sound
    · rw [same]
      exact represents.received
    · rw [assembly]
      exact represents.opened
    · rw [same, assembly]
      exact represents.assembles
  refine ⟨result, after, left, run, ?_⟩
  cases result with
  | none =>
      have empty : ∀ p, inbox.queue p = [] := by
        intro p
        rw [split p, pulls.drained rfl p]
        rfl
      rw [Inbox.take_empty empty]
      exact ⟨rfl, related inbox rfl split⟩
  | some result =>
      rcases result with ⟨t, qos⟩
      have here : inbox.queue qos.priority =
          t.toVec :: (left qos.priority).flatten := by
        rw [split, Option.toList_some, returned_singleton, if_pos rfl]
        rfl
      have elsewhere : ∀ q, q ≠ qos.priority →
          inbox.queue q = (left q).flatten := by
        intro q other
        rw [split, Option.toList_some, returned_singleton,
          if_neg (Ne.symm other)]
        rfl
      have higher : ∀ q : Priority, q.toNat < qos.priority.toNat →
          inbox.queue q = [] := by
        intro q before
        have other : q ≠ qos.priority := by
          rintro rfl
          exact Nat.lt_irrefl _ before
        have related := pulls.holds q
        rw [tryPullLoop_highest represents.holds run q before] at related
        rw [elsewhere q other, List.forall₂_nil_left_iff.1 related]
        rfl
      rw [Inbox.take_cons here higher]
      refine ⟨rfl, related _ rfl ?_⟩
      intro q
      change Priority.update _ _ _ q = _
      rw [Priority.update_apply]
      split
      · rename_i same
        rw [same]
      · rename_i other
        exact elsewhere q other

/-! ### A push -/

/-- A batch whose messages have lengths that fit a `u64`. -/
def WellFormed : Sent → Prop
  | .frame _ _ messages => ∀ message ∈ messages, message.length < 2 ^ 64
  | .fragment .. => True

/-- A push adds the messages that its batch brings. -/
theorem represents_brings
    (represents : Represents reception state inbox pending)
    {bytes : Bytes} {fragMaxSize : Nat} {decoded : Decoded}
    {defrag : Defragmentation}
    (run : decodeBatch state.defrag bytes fragMaxSize =
      .ok (decoded, defrag))
    (sound : defrag.Sound) {p : Priority} {messages : List (List UInt8)}
    (brings : decoded.Brings p messages)
    (room : state.HasRoom fragMaxSize bytes) {next : Inbox}
    {trace : List Entry}
    (opened : ∀ stream, Open trace stream ↔ next.assembly stream ≠ none)
    (assembles : ∀ stream assembly, next.assembly stream = some assembly →
      (defrag.get stream).Assembles assembly)
    (queue : ∀ q, next.queue q =
      inbox.queue q ++ if q = p then messages else [])
    (timer : Timer) :
    ∃ result after left,
      state.push bytes fragMaxSize timer = .ok (result, after) ∧
        Represents ⟨defrag, trace⟩ after next left := by
  rcases Pipeline.push_pushes represents.holds run brings timer with
    ⟨result, after, left, pushed, pushes, all⟩
  have complete := all room
  refine ⟨result, after, left, pushed, pushes.holds, ?_,
    complete.free represents.free, ?_, ?_, opened, ?_⟩
  · intro q
    rw [queue, complete.exactly, represents.queue_eq]
  · rw [pushes.defrag_eq]
    exact sound
  · exact pushes.defrag_eq.symm
  · rw [pushes.defrag_eq]
    exact assembles

/-- Only the buffer of one stream changes. -/
theorem assembles_set {defrag : Defragmentation}
    (assembles : ∀ stream assembly,
      inbox.assembly stream = some assembly →
        (defrag.get stream).Assembles assembly)
    {stream : Stream} {dbuf : DefragBuffer} {open_ : Option Assembly}
    (here : ∀ assembly, open_ = some assembly → dbuf.Assembles assembly)
    (other : Stream) (assembly : Assembly)
    (opened : (inbox.set stream open_).assembly other = some assembly) :
    ((defrag.set stream dbuf).get other).Assembles assembly := by
  rw [Inbox.set] at opened
  dsimp only at opened
  rw [Defragmentation.get_set]
  split
  · rename_i same
    rw [if_pos same] at opened
    exact here assembly opened
  · rename_i distinct
    rw [if_neg distinct] at opened
    exact assembles other assembly opened

/-- Only one stream opens or closes a message. -/
theorem opened_set {trace : List Entry}
    (opened : ∀ stream, Open trace stream ↔ inbox.assembly stream ≠ none)
    {entry : Entry} {open_ : Option Assembly}
    (here : entry.Opens ↔ open_ ≠ none) (stream : Stream) :
    Open (trace ++ [entry]) stream ↔
      (inbox.set entry.arrival.stream open_).assembly stream ≠ none := by
  rw [Inbox.set]
  dsimp only
  split
  · rename_i same
    rw [same, open_append_same]
    exact here
  · rename_i distinct
    rw [open_append_other trace entry distinct]
    exact opened stream

/-- A fragment continues the message of a buffer that expects it. -/
theorem Represents.continued_some
    (represents : Represents reception state inbox pending)
    {arrived : Arrival} {limit : Nat}
    (expects : (state.defrag.get arrived.stream).Expects arrived limit)
    (opened : Open reception.trace arrived.stream) :
    inbox.continued limit arrived.stream arrived.seqNum arrived.fragId
        arrived.payload =
      some ((state.defrag.get arrived.stream).buffer.toVec ++
        arrived.payload) := by
  rcases Option.ne_none_iff_exists'.1
      ((represents.opened arrived.stream).1 opened) with ⟨assembly, here⟩
  have assembles := represents.assembles _ assembly here
  rw [Inbox.continued, here]
  dsimp only
  rw [if_pos ((assembles.expects_iff arrived limit).1 expects),
    assembles.2.2]

/-- A fragment that its buffer does not expect continues nothing. -/
theorem Represents.continued_none
    (represents : Represents reception state inbox pending)
    {arrived : Arrival} {limit : Nat}
    (unexpected : ¬ (state.defrag.get arrived.stream).Expects arrived
      limit) :
    inbox.continued limit arrived.stream arrived.seqNum arrived.fragId
      arrived.payload = none := by
  rw [Inbox.continued]
  cases here : inbox.assembly arrived.stream with
  | none => rfl
  | some assembly =>
      have assembles := represents.assembles _ assembly here
      exact if_neg fun continues =>
        unexpected ((assembles.expects_iff arrived limit).2 continues)

/-- A push that finds room receives its fragment. -/
theorem represents_fragment
    (represents : Represents reception state inbox pending)
    {bytes : Bytes} (solid : bytes.NoEmptyChunk) {qos : QoS}
    {seqNum fragId : SeqNum} {kind : FragmentKind} {payload : List UInt8}
    (content : bytes.toVec =
      (Sent.fragment qos seqNum fragId kind payload).image)
    {fragMaxSize : Nat} (room : state.HasRoom fragMaxSize bytes)
    (guarded : Guarded fragMaxSize reception bytes) (timer : Timer) :
    ∃ result after left next,
      state.push bytes fragMaxSize timer = .ok (result, after) ∧
        reception.receive fragMaxSize bytes = .ok next ∧
        Represents next after (inbox.receive fragMaxSize
          (.fragment qos seqNum fragId kind payload)) left := by
  rcases decodeBatch_fragment_image solid represents.sound content with
    ⟨outcome, dbuf, run, accepts, outcomeSound, afterSound⟩
  have arrived := arrival_fragment_image content
  have received : reception.receive fragMaxSize bytes =
      .ok ⟨state.defrag.set (stream qos) dbuf, reception.trace ++
        [⟨⟨stream qos, seqNum, fragId, kind, payload⟩, outcome⟩]⟩ := by
    rw [Reception.receive, represents.received, run, ok_bind]
    simp only [arrived]
    rfl
  rw [Guarded, arrived, represents.received] at guarded
  suffices inner : ∃ result after left,
      state.push bytes fragMaxSize timer = .ok (result, after) ∧
        Represents ⟨state.defrag.set (stream qos) dbuf, reception.trace ++
          [⟨⟨stream qos, seqNum, fragId, kind, payload⟩, outcome⟩]⟩ after
            (inbox.receive fragMaxSize
              (.fragment qos seqNum fragId kind payload)) left by
    rcases inner with ⟨result, after, left, pushed, next⟩
    exact ⟨result, after, left, _, pushed, received, next⟩
  -- the inbox opens a message, closes it or completes it
  have goes : ∀ {open_ : Option Assembly} {messages : List (List UInt8)},
      ((Entry.mk ⟨stream qos, seqNum, fragId, kind, payload⟩
        outcome).Opens ↔ open_ ≠ none) →
      (∀ assembly, open_ = some assembly → dbuf.Assembles assembly) →
      outcome.Brings qos.priority messages →
        ∃ result after left,
          state.push bytes fragMaxSize timer = .ok (result, after) ∧
            Represents ⟨state.defrag.set (stream qos) dbuf,
              reception.trace ++
                [⟨⟨stream qos, seqNum, fragId, kind, payload⟩, outcome⟩]⟩
              after ((inbox.set (stream qos) open_).add qos.priority
                messages) left := by
    intro open_ messages opens here brings
    have opened : ∀ other,
        Open (reception.trace ++ [⟨⟨stream qos, seqNum, fragId, kind,
          payload⟩, outcome⟩]) other ↔
            ((inbox.set (stream qos) open_).add qos.priority
              messages).assembly other ≠ none :=
      opened_set represents.opened opens
    exact represents_brings represents run afterSound brings room opened
      (assembles_set represents.assembles here)
      (Inbox.queue_add (inbox.set (stream qos) open_) qos.priority
        messages) timer
  have closed : ∀ assembly, (none : Option Assembly) = some assembly →
      dbuf.Assembles assembly := fun _ impossible => by cases impossible
  cases accepts with
  | started kind content fits =>
      cases kind
      rw [Inbox.receive, if_pos fits, ← Inbox.add_nil (inbox.set _ _)]
      refine goes (iff_of_true ⟨trivial, by simp⟩ (by simp)) ?_ rfl
      rintro assembly ⟨⟩
      refine ⟨rfl, rfl, ?_⟩
      rw [Bytes.toVec_extend, content]
      rfl
  | refused kind full =>
      cases kind
      rw [Inbox.receive, if_neg (Nat.not_le.2 full),
        ← Inbox.add_nil (inbox.set _ _)]
      exact goes (iff_of_false And.left (by simp)) closed rfl
  | continued kind content expects =>
      cases kind
      have found := represents.continued_some expects
        (guarded (by simp) expects)
      rw [Inbox.receive, found, ← Inbox.add_nil (inbox.set _ _)]
      refine goes (iff_of_true ⟨trivial, by simp⟩ (by simp)) ?_ rfl
      rintro assembly ⟨⟩
      refine ⟨congrArg SeqNum.next expects.1.symm, expects.2.1.symm, ?_⟩
      rw [Bytes.toVec_extend, content]
  | cleared kind unexpected =>
      cases kind
      rw [Inbox.receive, represents.continued_none unexpected,
        ← Inbox.add_nil (inbox.set _ _)]
      exact goes (iff_of_false And.left (by simp)) closed rfl
  | @finished view other kind sameStream content expects =>
      cases kind
      have found := represents.continued_some expects
        (guarded (by simp) expects)
      rw [Inbox.receive, found]
      refine goes (iff_of_false (fun opens => opens.2 rfl) (by simp)) closed
        ⟨congrArg Stream.priority sameStream, outcomeSound, ?_⟩
      have whole : (ReadBatch.mk
          ((state.defrag.get (stream qos)).buffer.extend view) other
          .zero).rest =
          (state.defrag.get (stream qos)).buffer.toVec ++ payload := by
        refine (BytesReader.rest_reader _).trans ?_
        rw [Bytes.toVec_extend, content]
      rw [whole]
      exact remaining_messagesOf _
  | ignored kind unexpected =>
      cases kind
      rw [Inbox.receive, represents.continued_none unexpected]
      exact goes (iff_of_false And.left (by simp)) closed rfl

/-- A push that finds room receives its batch. -/
theorem represents_push
    (represents : Represents reception state inbox pending)
    {bytes : Bytes} {batch : Sent} (solid : bytes.NoEmptyChunk)
    (content : bytes.toVec = batch.image) (wellFormed : WellFormed batch)
    {fragMaxSize : Nat} (room : state.HasRoom fragMaxSize bytes)
    (guarded : Guarded fragMaxSize reception bytes) (timer : Timer) :
    ∃ result after left next,
      state.push bytes fragMaxSize timer = .ok (result, after) ∧
        reception.receive fragMaxSize bytes = .ok next ∧
        Represents next after (inbox.receive fragMaxSize batch) left := by
  cases batch with
  | frame qos seqNum messages =>
      rcases decodeBatch_frame_image solid content wellFormed with
        ⟨batch, run, holds⟩
      have received : reception.receive fragMaxSize bytes =
          .ok ⟨state.defrag, reception.trace⟩ := by
        rw [Reception.receive, represents.received, run, ok_bind]
        simp only [arrival_frame_image content]
        rfl
      rw [Inbox.receive]
      have opened : ∀ stream, Open reception.trace stream ↔
          (inbox.add qos.priority messages).assembly stream ≠ none :=
        represents.opened
      rcases represents_brings represents run represents.sound holds room
          opened represents.assembles
          (inbox.queue_add qos.priority messages) timer with
        ⟨result, after, left, pushed, next⟩
      exact ⟨result, after, left, _, pushed, received, next⟩
  | fragment qos seqNum fragId kind payload =>
      exact represents_fragment represents solid content room guarded timer

/-! ## Sequences of calls -/

namespace Pipeline

/-- Calls one after another, with what each of them returns. -/
def answers (fragMaxSize : Nat) :
    Pipeline → List Call →
      Except Fault (List (Option (Bytes × QoS)) × Pipeline)
  | state, [] => .ok ([], state)
  | state, next :: calls => do
      let (reply, state) ← state.answer fragMaxSize next
      let (replies, state) ← answers fragMaxSize state calls
      return (reply :: replies, state)

/-- The batches that calls push, as the decoder gets them. -/
def arriving (calls : List Call) : List Bytes :=
  calls.filterMap fun next =>
    match next with
    | .push chunk _ => some (.single chunk)
    | .tryPull => none

/-- A call does what a request asks for. -/
def Performs : Call → Inbox.Request → Prop
  | .push chunk _, .receive batch =>
      chunk.asSlice = batch.image ∧ WellFormed batch
  | .tryPull, .take => True
  | _, _ => False

/-- A message as the inbox returns it. -/
def content (reply : Option (Bytes × QoS)) :
    Option (Priority × List UInt8) :=
  reply.map fun (t, qos) => (qos.priority, t.toVec)

end Pipeline

open Pipeline (Call Performs answers arriving content)

/-- A pull answers as the inbox does. -/
theorem represents_pulled
    (represents : Represents reception state inbox pending)
    (fragMaxSize : Nat) :
    ∃ reply after left,
      state.answer fragMaxSize .tryPull = .ok (reply, after) ∧
        content reply = (inbox.answer fragMaxSize .take).1 ∧
        Represents reception after (inbox.answer fragMaxSize .take).2
          left := by
  rcases represents_tryPull represents with
    ⟨reply, after, left, run, same, next⟩
  exact ⟨reply, after, left, run, same, next⟩

/-- A push answers as the inbox does, and its batch is received. -/
theorem represents_pushed
    (represents : Represents reception state inbox pending)
    {fragMaxSize : Nat} {chunk : Chunk} {timer : Timer} {batch : Sent}
    (same : chunk.asSlice = batch.image) (wellFormed : WellFormed batch)
    (room : state.FindsRoom fragMaxSize (.push chunk timer))
    (guarded : Guarded fragMaxSize reception (.single chunk)) :
    ∃ after left next,
      state.answer fragMaxSize (.push chunk timer) = .ok (none, after) ∧
        reception.receive fragMaxSize (.single chunk) = .ok next ∧
        Represents next after
          (inbox.answer fragMaxSize (.receive batch)).2 left := by
  have solid : (Bytes.single chunk).NoEmptyChunk := by
    apply Bytes.noEmptyChunk_single
    rw [← chunk.length_asSlice, same]
    exact batch.length_image_pos
  have bytes : (Bytes.single chunk).toVec = batch.image := by
    rw [Bytes.toVec_single, same]
  rcases represents_push represents solid bytes wellFormed room guarded
      timer with
    ⟨result, after, left, next, run, received, represents⟩
  refine ⟨after, left, next, ?_, received, represents⟩
  rw [Pipeline.answer, run]
  rfl

/--
Calls that find room answer, one by one, as the four queues do, and end
without a fault, when every fragment that continues a message and meets the
expectation of its buffer arrives while a message of its stream is open.
-/
theorem answers_inbox (fragMaxSize capacity : Nat) (calls : List Call)
    (requests : List Inbox.Request)
    (perform : List.Forall₂ Performs calls requests)
    (room : (Pipeline.new capacity).NeverFull fragMaxSize calls)
    (guarded : GuardedRun fragMaxSize Reception.new (arriving calls)) :
    ∃ replies after,
      answers fragMaxSize (.new capacity) calls = .ok (replies, after) ∧
        replies.map content =
          (Inbox.new.serve fragMaxSize requests).1 := by
  have start := represents_new capacity
  generalize Pipeline.new capacity = state at start room ⊢
  generalize Inbox.new = inbox at start ⊢
  generalize Reception.new = reception at start guarded
  generalize (fun _ => [] : Priority → List (List (List UInt8))) = pending
    at start
  induction perform generalizing state inbox reception pending with
  | nil => exact ⟨[], state, rfl, rfl⟩
  | @cons next request calls requests performs _ hypothesis =>
      rw [Pipeline.NeverFull] at room
      have later := room.2
      -- what the first call returns comes before what the others return
      suffices first : ∃ reply after last left,
          state.answer fragMaxSize next = .ok (reply, after) ∧
            content reply = (inbox.answer fragMaxSize request).1 ∧
            Represents last after (inbox.answer fragMaxSize request).2
              left ∧
            GuardedRun fragMaxSize last (arriving calls) by
        rcases first with
          ⟨reply, after, last, left, run, same, represents, rest⟩
        rw [run] at later
        rcases hypothesis after later _ last rest left represents with
          ⟨replies, final, ran, others⟩
        refine ⟨reply :: replies, final, ?_, ?_⟩
        · rw [answers, run, ok_bind]
          dsimp only
          rw [ran]
          rfl
        · rw [List.map_cons, same, others]
          rfl
      cases next with
      | push chunk timer =>
          cases request with
          | take => exact performs.elim
          | receive batch =>
              have met : Guarded fragMaxSize reception (.single chunk) :=
                guarded.1
              rcases represents_pushed start performs.1 performs.2 room.1
                  met with
                ⟨after, left, last, run, received, represents⟩
              have rest := guarded.2
              rw [received] at rest
              exact ⟨none, after, last, left, run, rfl, represents, rest⟩
      | tryPull =>
          cases request with
          | receive batch => exact performs.elim
          | take =>
              rcases represents_pulled start fragMaxSize with
                ⟨reply, after, left, run, same, represents⟩
              exact ⟨reply, after, reception, left, run, same, represents,
                guarded⟩

/--
A message of high priority is returned between the two messages of a frame
of low priority, and a message of two fragments comes last.
-/
theorem answers_inbox_between :
    ∃ replies after,
      answers 100 (.new 4)
          [.push (.ofBuf (Sent.frame ⟨2⟩ (.new 1) [[7], []]).image) .expired,
            .push (.ofBuf (Sent.fragment ⟨3⟩ (.new 1) (.new 1) .first
              [2, 5]).image) .expired,
            .tryPull,
            .push (.ofBuf (Sent.frame ⟨0⟩ (.new 1) [[9]]).image) .expired,
            .tryPull, .tryPull, .tryPull,
            .push (.ofBuf (Sent.fragment ⟨3⟩ (.new 2) (.new 1) .last
              [6]).image) .expired,
            .tryPull] = .ok (replies, after) ∧
        replies.map content =
          [none, none, some (.low, [7]), none, some (.high, [9]),
            some (.low, []), none, none, some (.background, [5, 6])] :=
  answers_inbox 100 4 _
    [.receive (.frame ⟨2⟩ (.new 1) [[7], []]),
      .receive (.fragment ⟨3⟩ (.new 1) (.new 1) .first [2, 5]),
      .take, .receive (.frame ⟨0⟩ (.new 1) [[9]]), .take, .take, .take,
      .receive (.fragment ⟨3⟩ (.new 2) (.new 1) .last [6]), .take]
    (by simp [Performs, WellFormed]) (by decide +kernel)
    (by decide +kernel)

/--
The pipeline returns what a lone last fragment holds, and the inbox, in which
no message is open, returns nothing.
-/
theorem lone_last_answered :
    ∃ calls requests replies after,
      List.Forall₂ Performs calls requests ∧
        (Pipeline.new 4).NeverFull 100 calls ∧
        answers 100 (.new 4) calls = .ok (replies, after) ∧
        replies.map content = [none, some (.high, [42])] ∧
        (Inbox.new.serve 100 requests).1 = [none, none] := by
  refine ⟨[.push (.ofBuf (Sent.fragment ⟨0⟩ (.new 0) (.new 0) .last
      [1, 42]).image) .expired, .tryPull],
    [.receive (.fragment ⟨0⟩ (.new 0) (.new 0) .last [1, 42]), .take],
    _, _, ?_, ?_, rfl, ?_, ?_⟩
  · simp [Performs, WellFormed]
  · decide +kernel
  · decide +kernel
  · decide +kernel

end Rx
end Thubo
