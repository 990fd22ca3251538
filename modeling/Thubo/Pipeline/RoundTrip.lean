import Thubo.Pipeline.Outgoing
import Thubo.Pipeline.Feed

/-!
# From the pushes of the sender to the pulls of the receiver

The batches handed out are written to a byte stream, with keep-alives in
between, and cut again by their length.  The receiver that is fed with all of
them returns, for each priority, the messages whose push returned `Ok`.  The
receiver that misses some of them returns some of these messages, whole and
in order.  Neither end is dropped here, so every push that has written its
message returns `Ok`.
-/

namespace Thubo

open Tx (WriteBatch Sent Counters Bounded Emits Outgoing Move accepted)

/-! ## The byte stream -/

/-- What the write task writes: a batch or a keep-alive. -/
inductive Piece where
  | keepAlive
  | batch (batch : WriteBatch)

namespace Piece

/-- The bytes of a piece. -/
def bytes : Piece → List UInt8
  | keepAlive => [0, 0]
  | .batch written => written.image

/-- The batches among the pieces. -/
def batches (pieces : List Piece) : List WriteBatch :=
  pieces.filterMap fun piece =>
    match piece with
    | keepAlive => none
    | .batch written => some written

end Piece

/-- The bytes written for a sequence of pieces. -/
def wire (pieces : List Piece) : List UInt8 :=
  pieces.flatMap Piece.bytes

namespace Rx

/-- `u16::from_le_bytes`. -/
def fromLeBytes (low high : UInt8) : Nat :=
  low.toNat + 256 * high.toNat

/--
The loop of the read task: read a length, skip it when it is zero, else read
that many bytes.  Every round reads two bytes at least, so the number of
bytes bounds the rounds.
-/
def cutLoop : Nat → List UInt8 → List (List UInt8)
  | rounds + 1, low :: high :: rest =>
      let len := fromLeBytes low high
      if len = 0 then
        cutLoop rounds rest
      else if rest.length < len then
        []
      else
        rest.take len :: cutLoop rounds (rest.drop len)
  | _, _ => []

/-- The contents of the batches in a byte stream. -/
def cut (bytes : List UInt8) : List (List UInt8) :=
  cutLoop bytes.length bytes

/-- The two length bytes hold the length. -/
theorem fromLeBytes_ofNat {len : Nat} (bounded : len < 2 ^ 16) :
    fromLeBytes (UInt8.ofNat len) (UInt8.ofNat (len >>> 8)) = len := by
  simp only [fromLeBytes, UInt8.toNat_ofNat', Nat.shiftRight_eq_div_pow]
  omega

end Rx

namespace Tx

/-- A batch whose length is nonzero and fits its two length bytes. -/
structure Sized (batch : WriteBatch) : Prop where
  headed : batch.Headed
  positive : 0 < batch.content.length
  bounded : batch.content.length < 2 ^ 16

/-- Filling in the length does not change the content. -/
theorem content_writeLen (batch : WriteBatch) :
    batch.writeLen.content = batch.content := by
  simp only [WriteBatch.content, WriteBatch.writeLen, WriteBatch.BATCH_LEN]
  congr 1
  rcases batch.frame.data with _ | ⟨_, _ | ⟨_, rest⟩⟩ <;> rfl

/-- The image of a batch with its length filled in. -/
theorem image_writeLen {batch : WriteBatch} (sized : Sized batch) :
    ∃ low high, batch.writeLen.image = low :: high :: batch.content ∧
      Rx.fromLeBytes low high = batch.content.length := by
  have headed := sized.headed
  have len : batch.len = batch.content.length := by
    rw [WriteBatch.len, ← batch.length_content]
    exact Nat.mod_eq_of_lt sized.bounded
  refine ⟨UInt8.ofNat batch.len, UInt8.ofNat (batch.len >>> 8), ?_, ?_⟩
  · unfold WriteBatch.Headed WriteBatch.BATCH_LEN at headed
    simp only [WriteBatch.image, WriteBatch.writeLen, WriteBatch.content,
      WriteBatch.BATCH_LEN]
    generalize batch.frame.data = data at headed ⊢
    rcases data with _ | ⟨_, _ | ⟨_, rest⟩⟩
    · simp at headed
    · simp at headed
    · rfl
  · rw [len]
    exact Rx.fromLeBytes_ofNat sized.bounded

end Tx

/-- Cutting the stream gives the contents of the batches written. -/
theorem cut_wire {pieces : List Piece}
    (sized : ∀ batch ∈ Piece.batches pieces,
      ∃ original, batch = original.writeLen ∧ Tx.Sized original) :
    Rx.cut (wire pieces) =
      (Piece.batches pieces).map WriteBatch.content := by
  suffices general : ∀ rounds, (wire pieces).length ≤ rounds →
      Rx.cutLoop rounds (wire pieces) =
        (Piece.batches pieces).map WriteBatch.content from
    general _ (Nat.le_refl _)
  induction pieces with
  | nil =>
      intro rounds _
      cases rounds <;> rfl
  | cons piece pieces hypothesis =>
      intro rounds enough
      cases piece with
      | keepAlive =>
          cases rounds with
          | zero => simp [wire, Piece.bytes] at enough
          | succ rounds =>
              have later := hypothesis sized rounds (by
                simp only [wire, List.flatMap_cons, Piece.bytes,
                  List.length_append, List.length_cons,
                  List.length_nil] at enough ⊢
                omega)
              exact later
      | batch batch =>
          rcases sized batch (List.mem_cons_self ..) with
            ⟨original, rfl, ok⟩
          rcases Tx.image_writeLen ok with ⟨low, high, image, len⟩
          have split : wire (.batch original.writeLen :: pieces) =
              low :: high :: (original.content ++ wire pieces) := by
            simp only [wire, List.flatMap_cons, Piece.bytes, image,
              List.cons_append]
          rw [split] at enough ⊢
          cases rounds with
          | zero => simp at enough
          | succ rounds =>
              have later := hypothesis
                (fun other member => sized other
                  (List.mem_cons_of_mem _ member)) rounds (by
                    simp only [List.length_cons,
                      List.length_append] at enough
                    omega)
              have positive := ok.positive
              simp only [Rx.cutLoop, len]
              rw [if_neg (by omega), if_neg (by simp), List.take_left,
                List.drop_left, later]
              rw [show Piece.batches (.batch original.writeLen :: pieces) =
                  original.writeLen :: Piece.batches pieces from rfl,
                List.map_cons, Tx.content_writeLen]

/-! ## Batches handed out and what they carry -/

/-- A batch that has been handed out and what it carries. -/
def Written (batch : WriteBatch) (sent : Sent) : Prop :=
  batch.content = sent.image ∧ batch.qos.priority = sent.qos.priority

/-- A description of the batches handed out. -/
structure Fed (state : Outgoing) (fed : List Sent)
    (sent : Priority → List Sent) (counters : Priority → Counters)
    (messages : Priority → List (List UInt8))
    (unfinished : Priority → Option Tx.Partial) : Prop where
  describes : ∀ p, Tx.Describes p (state.stage p) (sent p) (counters p)
    (messages p) (unfinished p)
  written : List.Forall₂ Written state.out fed
  sublist : ∀ p, (Rx.batchesAt p fed).Sublist (sent p)

/-- The batches handed out carry some of what every priority has emitted. -/
theorem exists_fed {state : Outgoing} (ordered : state.Ordered) :
    ∃ fed sent counters messages unfinished,
      Fed state fed sent counters messages unfinished := by
  choose sent counters messages unfinished describes using
    ordered.described
  have related : ∀ p, List.Forall₂ Written
      ((state.stage p).committed.map WriteBatch.writeLen) (sent p) := by
    intro p
    rw [List.forall₂_map_left_iff]
    refine (describes p).carried.imp ?_
    intro batch carried carries
    exact ⟨(Tx.content_writeLen batch).trans carries.content_eq,
      carries.priority_eq⟩
  have selected : ∀ p, (state.out.filter fun batch =>
      batch.qos.priority = p).Sublist
        ((state.stage p).committed.map WriteBatch.writeLen) := by
    intro p
    exact (ordered.sublist p).trans ((List.take_sublist _ _).map _)
  rcases Merge.exists_related (fun _ _ written => written.2) related
      selected with ⟨fed, written, sublist⟩
  exact ⟨fed, sent, counters, messages, unfinished, describes, written,
    sublist⟩

variable {state : Outgoing} {fed : List Sent}
variable {sent : Priority → List Sent} {counters : Priority → Counters}
variable {messages : Priority → List (List UInt8)}
variable {unfinished : Priority → Option Tx.Partial}

theorem Fed.contents
    (fed_ : Fed state fed sent counters messages unfinished) :
    state.out.map WriteBatch.content = fed.map Sent.image := by
  rw [← List.forall₂_eq_eq_eq, List.forall₂_map_left_iff,
    List.forall₂_map_right_iff]
  exact fed_.written.imp fun _ _ written => written.1

/-- When nothing is lost or left over, everything emitted is handed out. -/
theorem Fed.all (fed_ : Fed state fed sent counters messages unfinished)
    (lossless : state.Lossless) (drained : state.Drained) (p : Priority) :
    Rx.batchesAt p fed = sent p ∧
      accepted (state.stage p).log = messages p := by
  have describes := fed_.describes p
  constructor
  · apply (fed_.sublist p).eq_of_length
    have handed := (Merge.forall₂_filter (fun _ _ written => written.2)
      fed_.written p).length_eq
    have taken := lossless p
    rw [Outgoing.takenAt, (drained p).2, List.take_length] at taken
    have emitted := describes.carried.length_eq
    rw [← emitted, Rx.batchesAt, ← handed]
    change (state.outAt p).length = _
    rw [taken, List.length_map]
  · exact (describes.unbooked (drained p).1).2

/-- Handed out batches are cut to their contents. -/
theorem Fed.sized (fed_ : Fed state fed sent counters messages unfinished)
    (ordered : state.Ordered) {batch : WriteBatch}
    (member : batch ∈ state.out) :
    ∃ original, batch = original.writeLen ∧ Tx.Sized original := by
  have own : batch ∈ state.outAt batch.qos.priority := by
    simp [Outgoing.outAt, member]
  have taken := (ordered.sublist batch.qos.priority).subset own
  rcases List.mem_map.1 taken with ⟨original, origin, rfl⟩
  refine ⟨original, rfl, ?_⟩
  have describes := fed_.describes original.qos.priority
  have committed := List.mem_of_mem_take origin
  rcases List.append_of_mem committed with ⟨front, back, split⟩
  have carried := describes.carried
  change original ∈ (state.stage original.qos.priority).committed
    at committed
  rw [show (state.stage original.qos.priority).committed = _ from split]
    at carried
  rcases Merge.forall₂_split carried with ⟨_, s, _, _, carries, _⟩
  have most := (ordered.wide original.qos.priority).2
  have less := carries.length_le
  have positive := s.length_image_pos
  rw [← carries.content_eq] at less positive
  exact ⟨carries.headed, positive, by omega⟩

/-! ## Pulling until nothing is left -/

namespace Rx

/-- Every message returned is one of some priority. -/
theorem sum_length_returned (got : List (Bytes × QoS)) :
    (Priority.ALL.map fun p => (returned p got).length).sum =
      got.length := by
  induction got with
  | nil => rfl
  | cons message got hypothesis =>
      rcases message with ⟨t, qos⟩
      have split : ∀ p, (returned p ((t, qos) :: got)).length =
          (returned p got).length + if qos.priority = p then 1 else 0 := by
        intro p
        by_cases same : qos.priority = p
        · simp [returned, same]
        · simp [returned, same]
      simp only [Priority.ALL, List.map_cons, List.map_nil, List.sum_cons,
        List.sum_nil, split, List.length_cons] at hypothesis ⊢
      cases qos.priority <;> simp <;> omega

variable {fragMaxSize : Nat} {start receiver : Pipeline}
variable {calls : List Pipeline.Call} {got : List (Bytes × QoS)}
variable {counters : Priority → Counters}
variable {messages : Priority → List (List UInt8)}
variable {unfinished : Priority → Option Tx.Partial}
variable {pending : Priority → List (List (List UInt8))}

/-- Every further pull returns a message, or nothing is queued any more. -/
theorem serve_pulls
    (served : Pipeline.serve fragMaxSize start calls = .ok (got, receiver))
    (complete : Complete fragMaxSize receiver got counters messages
      unfinished pending) (pulls : Nat) :
    ∃ more after left,
      Pipeline.serve fragMaxSize start
          (calls ++ List.replicate pulls .tryPull) = .ok (more, after) ∧
        Complete fragMaxSize after more counters messages unfinished left ∧
        ((∀ p, (left p).flatten = []) ∨ pulls ≤ more.length) := by
  induction pulls with
  | zero =>
      refine ⟨got, receiver, pending, ?_, complete,
        Or.inr (Nat.zero_le _)⟩
      rw [List.replicate_zero, List.append_nil, served]
  | succ pulls hypothesis =>
      rcases hypothesis with ⟨more, middle, between, ran, kept, progress⟩
      rcases complete_tryPull kept with
        ⟨result, after, left, pulled, completeAfter, drained⟩
      refine ⟨more ++ result.toList, after, left, ?_, completeAfter, ?_⟩
      · rw [List.replicate_succ', ← List.append_assoc]
        exact Pipeline.serve_concat ran pulled
      · cases result with
        | none => exact Or.inl (drained rfl)
        | some message =>
            rcases progress with nothing | enough
            · left
              intro p
              have before := kept.exactly p
              have now := completeAfter.exactly p
              rw [← before, nothing p, List.append_nil, returned_append,
                List.append_assoc, List.append_right_eq_self] at now
              exact (List.append_eq_nil_iff.1 now).2
            · right
              simp only [Option.toList_some, List.length_append,
                List.length_singleton]
              omega

/-- Enough pulls return every message. -/
theorem serve_all
    (served : Pipeline.serve fragMaxSize start calls = .ok (got, receiver))
    (complete : Complete fragMaxSize receiver got counters messages
      unfinished pending) {pulls : Nat}
    (enough : (Priority.ALL.map fun p => (messages p).length).sum ≤
      pulls) :
    ∃ more after,
      Pipeline.serve fragMaxSize start
          (calls ++ List.replicate pulls .tryPull) = .ok (more, after) ∧
        ∀ p, returned p more = messages p := by
  rcases serve_pulls served complete pulls with
    ⟨more, after, left, ran, kept, progress⟩
  refine ⟨more, after, ran, ?_⟩
  have exactly := kept.exactly
  have nothing : ∀ p, (left p).flatten = [] := by
    rcases progress with nothing | many
    · exact nothing
    · have all := sum_length_returned more
      have lengths : ∀ p, (returned p more).length +
          (left p).flatten.length = (messages p).length := by
        intro p
        rw [← exactly p, List.length_append]
      simp only [Priority.ALL, List.map_cons, List.map_nil, List.sum_cons,
        List.sum_nil] at all enough
      intro p
      rw [← List.length_eq_zero_iff]
      have high := lengths .high
      have medium := lengths .medium
      have low := lengths .low
      have background := lengths .background
      cases p <;> omega
  intro p
  rw [← exactly p, nothing p, List.append_nil]

end Rx

/-! ## The two results -/

/-- Fewer numbers of a description are used than of its stage. -/
theorem bounded_counters {p : Priority} {stage : Tx.Stage}
    {sent : List Sent} {counters : Counters}
    {messages : List (List UInt8)} {unfinished : Option Tx.Partial}
    (describes : Tx.Describes p stage sent counters messages unfinished)
    (bounded : Bounded stage.used) : Bounded counters := by
  cases isBooked : stage.booked with
  | none =>
      rw [(describes.unbooked isBooked).1] at bounded
      exact bounded
  | some batch =>
      rcases describes.booked batch isBooked with
        ⟨qos, more, _, _, _, _, used, _⟩
      refine ⟨fun cc => ?_, ?_⟩
      · have sent := bounded.sent cc
        rw [used, Counters.sent_bump] at sent
        split at sent
        · rename_i same
          rw [same]
          omega
        · exact sent
      · have fragmented := bounded.fragmented
        rwa [used] at fragmented

/-- The messages completed before the booked frame were accepted. -/
theorem messages_sublist {p : Priority} {stage : Tx.Stage}
    {sent : List Sent} {counters : Counters}
    {messages : List (List UInt8)} {unfinished : Option Tx.Partial}
    (describes : Tx.Describes p stage sent counters messages unfinished) :
    messages.Sublist (accepted stage.log) := by
  cases isBooked : stage.booked with
  | none =>
      rw [(describes.unbooked isBooked).2]
  | some batch =>
      rcases describes.booked batch isBooked with
        ⟨qos, more, _, _, _, _, _, log⟩
      rw [log]
      exact List.sublist_append_left _ _

/-- The messages of all pushes that have ended, in lock order. -/
def pushedMessages (log : List Tx.Finished) : List (List UInt8) :=
  log.map fun entry => entry.msg.toVec

/-- Accepted messages have been pushed. -/
theorem accepted_sublist (log : List Tx.Finished) :
    (accepted log).Sublist (pushedMessages log) := by
  induction log with
  | nil => exact .slnil
  | cons entry log hypothesis =>
      cases result : entry.result with
      | ok _ =>
          simpa [accepted, pushedMessages, result] using hypothesis
      | error error =>
          have later : (accepted log).Sublist
              (entry.msg.toVec :: pushedMessages log) := hypothesis.cons _
          simpa [accepted, pushedMessages, result] using later

/--
Every run of the sender that discards nothing and is drained, written as a
byte stream with keep-alives anywhere, cut and received with room for every
batch: enough pulls return, for each priority, exactly the messages whose
push returned `Ok`, in lock order.
-/
theorem roundTrip {batchSize : Nat} (least : 19 ≤ batchSize)
    (most : batchSize ≤ 65535) {moves : List Move}
    (sized : ∀ next ∈ moves, next.Sized)
    (keeps : ∀ next ∈ moves, next.Keeps) :
    ∃ sender, Outgoing.run (.new batchSize) moves = .ok sender ∧
      (sender.Drained →
        ∀ (pieces : List Piece) (fragMaxSize capacity : Nat)
          (calls : List Rx.Pipeline.Call),
          Piece.batches pieces = sender.out →
          (∀ p, ∀ message ∈ accepted (sender.stage p).log,
            (Tx.encodeMessage message).length ≤ fragMaxSize) →
          Rx.Pipeline.pushed calls = Rx.cut (wire pieces) →
          Rx.Pipeline.NeverFull fragMaxSize (.new capacity) calls →
          ∀ pulls, (Priority.ALL.map fun p =>
              (accepted (sender.stage p).log).length).sum ≤ pulls →
            ∃ got receiver,
              Rx.Pipeline.serve fragMaxSize (.new capacity)
                  (calls ++ List.replicate pulls .tryPull) =
                .ok (got, receiver) ∧
              ∀ p, Rx.returned p got = accepted (sender.stage p).log) := by
  rcases Outgoing.run_ordered (Outgoing.ordered_new least most) sized with
    ⟨sender, ran, ordered, lossless⟩
  refine ⟨sender, ran, ?_⟩
  intro drained pieces fragMaxSize capacity calls batches limit fedCalls
    never pulls enough
  rcases exists_fed ordered with
    ⟨fed, sent, counters, messages, unfinished, fed_⟩
  have all := fed_.all
    (lossless keeps (Outgoing.lossless_new batchSize)) drained
  have cuts : Rx.cut (wire pieces) = fed.map Sent.image := by
    rw [cut_wire, batches, fed_.contents]
    intro batch member
    rw [batches] at member
    exact fed_.sized ordered member
  have emits : ∀ p, Emits p (Rx.batchesAt p fed) (counters p) (messages p)
      (unfinished p) := by
    intro p
    rw [(all p).1]
    exact (fed_.describes p).emits
  have limits : ∀ p, ∀ message ∈ messages p,
      (Tx.encodeMessage message).length ≤ fragMaxSize := by
    intro p message member
    rw [← (all p).2] at member
    exact limit p message member
  rcases Rx.serve_complete (fedCalls.trans cuts) emits limits never with
    ⟨got, receiver, pending, served, complete⟩
  simp only [fun p => (all p).2] at enough ⊢
  exact Rx.serve_all served complete enough

/-- A message of twenty bytes, which takes two batches of nineteen. -/
def sampleMessage : Bytes :=
  Bytes.single (Chunk.ofBuf (List.replicate 20 7))

/-- The message is pushed and both its batches are handed out. -/
def sampleMoves : List Move :=
  [.push sampleMessage ⟨0⟩, .resume .high false, .resume .high false,
    .handOut .high, .handOut .high]

/-- The two batches, after a keep-alive. -/
def samplePieces : List Piece :=
  match Outgoing.run (.new 19) sampleMoves with
  | .ok sender => .keepAlive :: sender.out.map Piece.batch
  | .error _ => []

/-- The batches cut from the stream, pushed one after another. -/
def sampleCalls : List Rx.Pipeline.Call :=
  (Rx.cut (wire samplePieces)).map fun content =>
    .push (Chunk.ofBuf content) .deadline

/-- The message in two fragments arrives whole. -/
theorem roundTrip_sample :
    ∃ got receiver,
      Rx.Pipeline.serve 21 (.new 4)
          (sampleCalls ++ List.replicate 1 .tryPull) =
        .ok (got, receiver) ∧
      Rx.returned .high got = [List.replicate 20 7] := by
  have sized : ∀ next ∈ sampleMoves, next.Sized := by decide
  have keeps : ∀ next ∈ sampleMoves, next.Keeps := by decide
  rcases roundTrip (show 19 ≤ 19 by decide) (by decide) sized keeps with
    ⟨sender, ran, result⟩
  have checked :
      (match Outgoing.run (.new 19) sampleMoves with
        | .ok sender => decide (sender.Drained ∧
            Piece.batches samplePieces = sender.out ∧
            ∀ p, accepted (sender.stage p).log =
              if p = .high then [List.replicate 20 7] else [])
        | .error _ => false) = true := by
    decide +kernel
  rw [ran] at checked
  rcases of_decide_eq_true checked with ⟨drained, batches, log⟩
  rcases result drained samplePieces 21 4 sampleCalls batches
      (by simp only [log]; decide +kernel) (by decide +kernel)
      (by decide +kernel) 1 (by simp only [log]; decide) with
    ⟨got, receiver, served, returned⟩
  refine ⟨got, receiver, served, ?_⟩
  rw [returned, log]
  rfl

/--
Every run of the sender, with any pushes abandoned and any batches discarded,
received by any sequence of calls: the messages returned for a priority are
some of those whose push returned `Ok`, whole and in lock order, as long as no
sequence number and no fragment identifier is used twice.
-/
theorem loss_tolerant {batchSize : Nat} (least : 19 ≤ batchSize)
    (most : batchSize ≤ 65535) {moves : List Move}
    (sized : ∀ next ∈ moves, next.Sized) :
    ∃ sender, Outgoing.run (.new batchSize) moves = .ok sender ∧
      ((∀ p, Bounded (sender.stage p).used) →
        ∀ (fragMaxSize capacity : Nat) (calls : List Rx.Pipeline.Call),
          Rx.Pipeline.pushed calls =
            sender.out.map WriteBatch.content →
          ∃ got receiver,
            Rx.Pipeline.serve fragMaxSize (.new capacity) calls =
              .ok (got, receiver) ∧
            ∀ p, (Rx.returned p got).Sublist
                (accepted (sender.stage p).log) ∧
              (accepted (sender.stage p).log).Sublist
                (pushedMessages (sender.stage p).log)) := by
  rcases Outgoing.run_ordered (Outgoing.ordered_new least most) sized with
    ⟨sender, ran, ordered, _⟩
  refine ⟨sender, ran, ?_⟩
  intro bounded fragMaxSize capacity calls fedCalls
  rcases exists_fed ordered with
    ⟨fed, sent, counters, messages, unfinished, fed_⟩
  have covers : ∀ p, Rx.Covers p fed (counters p) (messages p)
      (unfinished p) := fun p =>
    ⟨bounded_counters (fed_.describes p) (bounded p), sent p,
      (fed_.describes p).emits, fed_.sublist p⟩
  rcases Rx.serve_survived (fedCalls.trans fed_.contents) covers with
    ⟨got, receiver, pending, served, survived⟩
  refine ⟨got, receiver, served, fun p => ⟨?_, accepted_sublist _⟩⟩
  have kept := (List.sublist_append_left _ _).trans (survived.sublist p)
  exact kept.trans (messages_sublist (fed_.describes p))

/-- The first fragment is discarded; the last one is received alone. -/
theorem loss_tolerant_sample :
    ∃ got receiver,
      Rx.Pipeline.serve 21 (.new 4)
          [.push (Chunk.ofBuf ([0, 2, 0x41, 1] ++ List.replicate 6 7))
            .deadline, .tryPull] = .ok (got, receiver) ∧
      (Rx.returned .high got).Sublist [List.replicate 20 7] := by
  have sized : ∀ next ∈ [Move.push sampleMessage ⟨0⟩,
      .resume .high false, .resume .high false, .discard .high,
      .handOut .high], next.Sized := by
    decide
  rcases loss_tolerant (show 19 ≤ 19 by decide) (by decide) sized with
    ⟨sender, ran, result⟩
  have checked :
      (match Outgoing.run (.new 19) [Move.push sampleMessage ⟨0⟩,
          .resume .high false, .resume .high false, .discard .high,
          .handOut .high] with
        | .ok sender => decide ((∀ p, (∀ cc ∈ [CongestionControl.block,
              .drop], (sender.stage p).used.sent cc < 2 ^ 28) ∧
            (sender.stage p).used.fragmented < 2 ^ 28) ∧
            sender.out.map WriteBatch.content =
              [[0, 2, 0x41, 1] ++ List.replicate 6 7] ∧
            accepted (sender.stage .high).log = [List.replicate 20 7])
        | .error _ => false) = true := by
    decide +kernel
  rw [ran] at checked
  rcases of_decide_eq_true checked with ⟨used, contents, log⟩
  have bounded : ∀ p, Bounded (sender.stage p).used := by
    intro p
    refine ⟨fun cc => (used p).1 cc ?_, (used p).2⟩
    cases cc <;> decide
  rcases result bounded 21 4
      [.push (Chunk.ofBuf ([0, 2, 0x41, 1] ++ List.replicate 6 7))
        .deadline, .tryPull] (by rw [contents]; decide) with
    ⟨got, receiver, served, some_⟩
  refine ⟨got, receiver, served, ?_⟩
  rw [← log]
  exact (some_ .high).1

end Thubo
