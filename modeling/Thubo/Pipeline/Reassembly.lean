import Thubo.Pipeline.Emission
import Thubo.Pipeline.Delivery

/-!
# Reassembly of what a priority emits

The receiver decodes the batches of a priority one after another.  When it
gets them all, its buffer follows the unfinished message of the sender
fragment by fragment.  When batches are missing, its expectation stays behind
the counters of the sender, unless it follows the unfinished message.
-/

namespace Thubo
namespace Rx

open Tx (Sent Partial Counters Bounded Emit Emits encodeMessage)

/-! ## Decoding what a batch carries -/

theorem payload_encodeMessage {message : List UInt8}
    (bounded : message.length < 2 ^ 64) (rest : List UInt8) :
    Parser.payload (encodeMessage message ++ rest) =
      some (message, rest) := by
  rw [encodeMessage, List.append_assoc, Parser.payload,
    Parser.bind_some (u64_vleBytes bounded _),
    Parser.takeExactly_append]

/-- The messages of a frame decode one after another. -/
theorem remaining_flatMap {messages : List (List UInt8)}
    (bounded : ∀ message ∈ messages, message.length < 2 ^ 64) :
    Remaining (messages.flatMap encodeMessage) messages := by
  induction messages with
  | nil => exact .stop rfl
  | cons message messages hypothesis =>
      rw [List.forall_mem_cons] at bounded
      rw [List.flatMap_cons]
      exact .next (payload_encodeMessage bounded.1 _)
        (hypothesis bounded.2)

variable {bytes : Bytes} {defrag : Defragmentation} {fragMaxSize : Nat}

/-- A frame is delivered with its messages. -/
theorem decodeBatch_frame_image (solid : bytes.NoEmptyChunk)
    {qos : QoS} {seqNum : SeqNum} {messages : List (List UInt8)}
    (content : bytes.toVec = (Sent.frame qos seqNum messages).image)
    (bounded : ∀ message ∈ messages, message.length < 2 ^ 64) :
    ∃ batch, decodeBatch defrag bytes fragMaxSize =
        .ok (.deliver batch, defrag) ∧
      HoldsMessages qos.priority batch messages := by
  have parsed : Parser.message bytes.toVec =
      some (⟨.new qos seqNum, .frame .new⟩,
        messages.flatMap encodeMessage) := by
    rw [content]
    exact Parser.message_bytes ⟨.new qos seqNum, .frame .new⟩
      FrameHeader.new_wellFormed _
  rcases decodeBatch_frame solid parsed defrag fragMaxSize with
    ⟨batch, frame, run⟩
  refine ⟨batch, run, ?_, frame.sound, ?_⟩
  · rw [frame.qos_eq]
    rfl
  · rw [frame.rest_eq]
    exact remaining_flatMap bounded

theorem message_fragment_image {qos : QoS} {seqNum fragId : SeqNum}
    {kind : FragmentKind} {payload : List UInt8}
    (content : bytes.toVec =
      (Sent.fragment qos seqNum fragId kind payload).image) :
    Parser.message bytes.toVec =
      some (⟨.new qos seqNum, .fragment (.new kind fragId)⟩, payload) := by
  rw [content]
  exact Parser.message_bytes
    ⟨.new qos seqNum, .fragment (.new kind fragId)⟩
    (FragmentHeader.new_wellFormed kind fragId) payload

/-- A fragment arrives as it was sent. -/
theorem arrival_fragment_image {qos : QoS} {seqNum fragId : SeqNum}
    {kind : FragmentKind} {payload : List UInt8}
    (content : bytes.toVec =
      (Sent.fragment qos seqNum fragId kind payload).image) :
    arrival bytes.toVec =
      some ⟨stream qos, seqNum, fragId, kind, payload⟩ := by
  simp only [arrival, message_fragment_image content,
    FragmentHeader.kind_new]
  rfl

/-- A frame brings no fragment. -/
theorem arrival_frame_image {qos : QoS} {seqNum : SeqNum}
    {messages : List (List UInt8)}
    (content : bytes.toVec = (Sent.frame qos seqNum messages).image) :
    arrival bytes.toVec = none := by
  have parsed : Parser.message bytes.toVec =
      some (⟨.new qos seqNum, .frame .new⟩,
        messages.flatMap encodeMessage) := by
    rw [content]
    exact Parser.message_bytes ⟨.new qos seqNum, .frame .new⟩
      FrameHeader.new_wellFormed _
  simp only [arrival, parsed]

/-- A fragment is offered to the buffer of its stream. -/
theorem decodeBatch_fragment_image (solid : bytes.NoEmptyChunk)
    (sound : defrag.Sound) {qos : QoS} {seqNum fragId : SeqNum}
    {kind : FragmentKind} {payload : List UInt8}
    (content : bytes.toVec =
      (Sent.fragment qos seqNum fragId kind payload).image) :
    ∃ outcome dbuf,
      decodeBatch defrag bytes fragMaxSize =
          .ok (outcome, defrag.set (stream qos) dbuf) ∧
        Accepts fragMaxSize (defrag.get (stream qos))
          ⟨stream qos, seqNum, fragId, kind, payload⟩ outcome dbuf ∧
        outcome.Sound ∧ (defrag.set (stream qos) dbuf).Sound := by
  have parsed := message_fragment_image content
  have arrived := arrival_fragment_image content
  have defined : KindDefined bytes.toVec := by
    rw [KindDefined, parsed]
    exact (FragmentHeader.kind_ok_iff _).1
      ⟨kind, FragmentHeader.kind_new kind fragId⟩
  rcases decodeBatch_arrival solid arrived defrag fragMaxSize with
    ⟨outcome, dbuf, run, accepts⟩
  rcases decodeBatch_sound solid defined sound fragMaxSize with
    ⟨_, _, ran, outcomeSound, afterSound⟩
  rw [run] at ran
  cases ran
  exact ⟨outcome, dbuf, run, accepts, outcomeSound, afterSound⟩

/-- A delivered reassembled message is the only message of its batch. -/
theorem holdsMessages_reassembled {qos : QoS} {message : List UInt8}
    (sound : (ReadBatch.mk bytes qos .zero).Sound)
    (content : bytes.toVec = encodeMessage message)
    (bounded : message.length < 2 ^ 64) :
    HoldsMessages qos.priority ⟨bytes, qos, .zero⟩ [message] := by
  refine ⟨rfl, sound, ?_⟩
  have rest : (ReadBatch.mk bytes qos .zero).rest = bytes.toVec :=
    BytesReader.rest_reader bytes
  rw [rest, content]
  exact .next (by
    rw [← List.append_nil (encodeMessage message)]
    exact payload_encodeMessage bounded []) (.stop rfl)

/-- Decoding a batch of priority `p` touches only the buffers of `p`. -/
structure Receives (p : Priority) (fragMaxSize : Nat)
    (defrag : Defragmentation) (bytes : Bytes) (decoded : Decoded)
    (after : Defragmentation) : Prop where
  run : decodeBatch defrag bytes fragMaxSize = .ok (decoded, after)
  sound : after.Sound
  others : ∀ other : Stream, other.priority ≠ p →
    after.get other = defrag.get other

theorem get_set_others {qos : QoS} {p : Priority}
    (priority : qos.priority = p) (defrag : Defragmentation)
    (dbuf : DefragBuffer) (other : Stream) (distinct : other.priority ≠ p) :
    (defrag.set (stream qos) dbuf).get other = defrag.get other := by
  rw [Defragmentation.get_set, if_neg]
  rintro rfl
  exact distinct priority

/-! ## The receiver that gets every batch -/

/-- The buffer expects the next fragment of a message. -/
structure Follows (dbuf : DefragBuffer) (counters : Counters)
    (part : Partial) : Prop where
  seqNum_eq : dbuf.seqNum = counters.number part.qos.congestionControl
  fragId_eq : dbuf.fragId = SeqNum.new counters.fragmented
  buffer_eq : dbuf.buffer.toVec = part.front

/-- The receiver follows the unfinished message if that is not too long. -/
def Synced (fragMaxSize : Nat) (defrag : Defragmentation)
    (counters : Counters) (unfinished : Option Partial) : Prop :=
  ∀ part, unfinished = some part →
    (encodeMessage part.message).length ≤ fragMaxSize →
      Follows (defrag.get (stream part.qos)) counters part

variable {p : Priority} {counters after : Counters}
variable {unfinished next : Option Partial} {batch : Sent}
variable {more : List (List UInt8)}

/-- A buffer that follows a message takes its next fragment. -/
theorem Follows.expects {dbuf : DefragBuffer} {part : Partial}
    (follows : Follows dbuf counters part) {payload rest : List UInt8}
    (split : encodeMessage part.message = part.front ++ payload ++ rest)
    (limit : (encodeMessage part.message).length ≤ fragMaxSize)
    (kind : FragmentKind) :
    dbuf.Expects
      ⟨stream part.qos, counters.number part.qos.congestionControl,
        SeqNum.new counters.fragmented, kind, payload⟩ fragMaxSize := by
  refine ⟨follows.seqNum_eq.symm, follows.fragId_eq.symm, ?_⟩
  rw [← Bytes.length_toVec, follows.buffer_eq]
  have length := congrArg List.length split
  simp only [List.length_append] at length
  change part.front.length + payload.length ≤ fragMaxSize
  omega

/-- The receiver follows the sender from one batch to the next. -/
theorem emit_synced
    (emit : Emit p counters unfinished batch after more next)
    (at_ : ∀ part, unfinished = some part → part.At p)
    (solid : bytes.NoEmptyChunk) (content : bytes.toVec = batch.image)
    (sound : defrag.Sound)
    (synced : Synced fragMaxSize defrag counters unfinished)
    (limit : ∀ message ∈ more,
      (encodeMessage message).length ≤ fragMaxSize) :
    ∃ decoded left,
      Receives p fragMaxSize defrag bytes decoded left ∧
        decoded.Brings p more ∧ Synced fragMaxSize left after next := by
  cases emit with
  | frame qos more priority nonempty bounded =>
      rcases decodeBatch_frame_image solid content bounded with
        ⟨batch, run, holds⟩
      rw [priority] at holds
      refine ⟨_, _, ⟨run, sound, fun _ _ => rfl⟩, holds, ?_⟩
      intro part impossible
      cases impossible
  | first qos message payload rest priority bounded split remains =>
      rcases decodeBatch_fragment_image solid sound content with
        ⟨outcome, dbuf, run, accepts, outcomeSound, afterSound⟩
      have received : Receives p fragMaxSize defrag bytes outcome _ :=
        ⟨run, afterSound, get_set_others priority defrag dbuf⟩
      cases accepts with
      | started kind payloadEq =>
          refine ⟨_, _, received, rfl, ?_⟩
          rintro part same _
          cases same
          rw [Defragmentation.get_set, if_pos rfl]
          refine ⟨Counters.next_number _ _, rfl, ?_⟩
          rw [Bytes.toVec_extend, payloadEq]
          rfl
      | refused kind full =>
          refine ⟨_, _, received, rfl, ?_⟩
          rintro part same fits
          cases same
          have length := congrArg List.length split
          simp only [List.length_append] at length fits full
          omega
      | continued kind => cases kind
      | cleared kind => cases kind
      | finished kind => cases kind
      | ignored kind => cases kind
  | @more part payload rest split remains =>
      rcases decodeBatch_fragment_image solid sound content with
        ⟨outcome, dbuf, run, accepts, outcomeSound, afterSound⟩
      have received : Receives p fragMaxSize defrag bytes outcome _ :=
        ⟨run, afterSound, get_set_others (at_ part rfl).1 defrag dbuf⟩
      cases accepts with
      | started kind => cases kind
      | refused kind => cases kind
      | continued kind payloadEq expects =>
          refine ⟨_, _, received, rfl, ?_⟩
          rintro other same fits
          cases same
          have follows := synced part rfl fits
          rw [Defragmentation.get_set, if_pos rfl]
          refine ⟨?_, follows.fragId_eq, ?_⟩
          · change (defrag.get (stream part.qos)).seqNum.next = _
            rw [follows.seqNum_eq]
            exact Counters.next_number _ _
          · rw [Bytes.toVec_extend, follows.buffer_eq, payloadEq]
      | cleared kind unexpected =>
          refine ⟨_, _, received, rfl, ?_⟩
          rintro other same fits
          cases same
          exact absurd ((synced part rfl fits).expects split fits .more)
            unexpected
      | finished kind => cases kind
      | ignored kind => cases kind
  | @last part payload split =>
      rcases decodeBatch_fragment_image solid sound content with
        ⟨outcome, dbuf, run, accepts, outcomeSound, afterSound⟩
      have received : Receives p fragMaxSize defrag bytes outcome _ :=
        ⟨run, afterSound, get_set_others (at_ part rfl).1 defrag dbuf⟩
      have fits := limit part.message (List.mem_singleton_self _)
      have follows := synced part rfl fits
      cases accepts with
      | started kind => cases kind
      | refused kind => cases kind
      | continued kind => cases kind
      | cleared kind => cases kind
      | finished kind sameStream payloadEq expects =>
          refine ⟨_, _, received, ?_, ?_⟩
          · have samePriority := congrArg Stream.priority sameStream
            have holds := holdsMessages_reassembled outcomeSound
              (by rw [Bytes.toVec_extend, follows.buffer_eq, payloadEq,
                split]) (at_ part rfl).2
            have priority : _ = p := samePriority.trans (at_ part rfl).1
            rw [← priority]
            exact holds
          · rintro other impossible
            cases impossible
      | ignored kind unexpected =>
          exact absurd (follows.expects (by rw [split, List.append_nil])
            fits .last) unexpected

/-! ## The receiver that misses batches -/

/--
A buffer whose expectation is not ahead of the sender.  If it expects the
next fragment of the unfinished message, it holds all fragments so far.
-/
def Behind (dbuf : DefragBuffer) (cc : CongestionControl)
    (counters : Counters) (unfinished : Option Partial) : Prop :=
  ∃ number identifier,
    dbuf.seqNum = SeqNum.new number ∧ dbuf.fragId = SeqNum.new identifier ∧
      number ≤ counters.sent cc + 1 ∧ identifier ≤ counters.fragmented ∧
      (number = counters.sent cc + 1 → identifier = counters.fragmented →
        ∀ part, unfinished = some part →
          part.qos.congestionControl = cc →
            dbuf.buffer.toVec = part.front)

/-- Both buffers of a priority are behind the sender. -/
def Lagging (p : Priority) (defrag : Defragmentation)
    (counters : Counters) (unfinished : Option Partial) : Prop :=
  ∀ cc, Behind (defrag.get ⟨cc, p⟩) cc counters unfinished

theorem lagging_new (p : Priority) : Lagging p .new .zero none := by
  intro cc
  rw [Defragmentation.get_new]
  refine ⟨0, 0, rfl, rfl, Nat.zero_le _, Nat.le_refl _, ?_⟩
  intro _ _ part impossible
  cases impossible

/-- A buffer that does not get a batch stays behind. -/
theorem behind_missed
    (emit : Emit p counters unfinished batch after more next)
    {dbuf : DefragBuffer} {cc : CongestionControl}
    (behind : Behind dbuf cc counters unfinished) :
    Behind dbuf cc after next := by
  rcases behind with
    ⟨number, identifier, seqNumEq, fragIdEq, numberLe, idLe, holds⟩
  have sent := emit.sent_eq cc
  have fragmented := emit.fragmented_le
  refine ⟨number, identifier, seqNumEq, fragIdEq, ?_, by omega, ?_⟩
  · split at sent <;> omega
  intro ahead current part same control
  by_cases own : cc = batch.control
  · rw [if_pos own] at sent
    omega
  -- another stream: its unfinished message, if any, cannot be this one
  · cases emit with
    | frame => cases same
    | first =>
        cases same
        exact absurd control.symm own
    | more =>
        cases same
        exact absurd control.symm own
    | last => cases same

/-- A buffer that refuses a batch stays behind. -/
theorem behind_cleared
    (emit : Emit p counters unfinished batch after more next)
    {dbuf : DefragBuffer} (behind : Behind dbuf batch.control
      counters unfinished) :
    Behind dbuf.clear batch.control after next := by
  rcases behind_missed emit behind with
    ⟨number, identifier, seqNumEq, fragIdEq, numberLe, idLe, _⟩
  rcases behind with
    ⟨old, _, oldEq, _, oldLe, _, _⟩
  have sent := emit.sent_control
  refine ⟨old, identifier, oldEq, fragIdEq, by omega, idLe, ?_⟩
  intro ahead
  omega

/-- A priority that misses a batch stays behind. -/
theorem lagging_missed
    (emit : Emit p counters unfinished batch after more next)
    (lagging : Lagging p defrag counters unfinished) :
    Lagging p defrag after next :=
  fun cc => behind_missed emit (lagging cc)

/-- Only the buffer of the batch's own stream changes. -/
theorem lagging_set
    (emit : Emit p counters unfinished batch after more next)
    (lagging : Lagging p defrag counters unfinished) {dbuf : DefragBuffer}
    (behind : Behind dbuf batch.control after next) :
    Lagging p (defrag.set (stream batch.qos) dbuf) after next := by
  intro cc
  rw [Defragmentation.get_set]
  split
  · rename_i own
    have control := congrArg Stream.congestionControl own
    cases control
    exact behind
  · exact behind_missed emit (lagging cc)

/-- The buffer that takes the next fragment held all fragments before it. -/
theorem Behind.front_eq {dbuf : DefragBuffer} {part : Partial}
    (behind : Behind dbuf part.qos.congestionControl counters (some part))
    (sent : counters.sent part.qos.congestionControl + 1 < 2 ^ 28)
    (fragmented : counters.fragmented < 2 ^ 28) {kind : FragmentKind}
    {payload : List UInt8}
    (expects : dbuf.Expects
      ⟨stream part.qos, counters.number part.qos.congestionControl,
        SeqNum.new counters.fragmented, kind, payload⟩ fragMaxSize) :
    dbuf.buffer.toVec = part.front := by
  rcases behind with
    ⟨number, identifier, seqNumEq, fragIdEq, numberLe, idLe, holds⟩
  have sameNumber : SeqNum.new (counters.sent
      part.qos.congestionControl + 1) = SeqNum.new number :=
    expects.1.trans seqNumEq
  have sameId : SeqNum.new counters.fragmented = SeqNum.new identifier :=
    expects.2.1.trans fragIdEq
  exact holds (SeqNum.new_injective sent (by omega) sameNumber).symm
    (SeqNum.new_injective fragmented (by omega) sameId).symm part rfl rfl

/-- The buffer that has just taken the next fragment. -/
theorem behind_taken {seqNum fragId : SeqNum} {buffer : Bytes}
    {cc : CongestionControl} (seqNumEq : seqNum = counters.number cc)
    (fragIdEq : fragId = SeqNum.new counters.fragmented)
    (holds : ∀ part, unfinished = some part →
      buffer.toVec = part.front) :
    Behind ⟨seqNum, fragId, buffer⟩ cc counters unfinished :=
  ⟨_, _, seqNumEq, fragIdEq, Nat.le_refl _, Nat.le_refl _,
    fun _ _ part same _ => holds part same⟩

/-- A first fragment that is refused leaves its own number expected. -/
theorem behind_refused
    (emit : Emit p counters unfinished batch after more next)
    {seqNum fragId : SeqNum} {buffer : Bytes}
    (seqNumEq : seqNum = counters.number batch.control)
    (fragIdEq : fragId = SeqNum.new after.fragmented) :
    Behind ⟨seqNum, fragId, buffer⟩ batch.control after next := by
  have sent := emit.sent_control
  refine ⟨_, _, seqNumEq, fragIdEq, by omega, Nat.le_refl _, ?_⟩
  intro ahead
  omega

/-- A receiver that has missed batches takes one more. -/
theorem emit_lagging
    (emit : Emit p counters unfinished batch after more next)
    (at_ : ∀ part, unfinished = some part → part.At p)
    (solid : bytes.NoEmptyChunk) (content : bytes.toVec = batch.image)
    (sound : defrag.Sound)
    (lagging : Lagging p defrag counters unfinished)
    (bounded : Bounded after) :
    ∃ decoded left brought,
      Receives p fragMaxSize defrag bytes decoded left ∧
        brought.Sublist more ∧ decoded.Brings p brought ∧
        Lagging p left after next := by
  have step := emit
  cases emit with
  | frame qos more priority nonempty smaller =>
      rcases decodeBatch_frame_image solid content smaller with
        ⟨batch, run, holds⟩
      rw [priority] at holds
      exact ⟨_, _, more, ⟨run, sound, fun _ _ => rfl⟩,
        List.Sublist.refl _, holds, lagging_missed step lagging⟩
  | first qos message payload rest priority smaller split remains =>
      rcases decodeBatch_fragment_image solid sound content with
        ⟨outcome, dbuf, run, accepts, outcomeSound, afterSound⟩
      have received : Receives p fragMaxSize defrag bytes outcome _ :=
        ⟨run, afterSound, get_set_others priority defrag dbuf⟩
      cases accepts with
      | started kind payloadEq =>
          refine ⟨_, _, [], received, List.nil_sublist _, rfl,
            lagging_set step lagging ?_⟩
          refine behind_taken (Counters.next_number _ _) rfl ?_
          rintro part same
          cases same
          rw [Bytes.toVec_extend, payloadEq]
          rfl
      | refused kind full =>
          exact ⟨_, _, [], received, List.nil_sublist _, rfl,
            lagging_set step lagging (behind_refused step rfl rfl)⟩
      | continued kind => cases kind
      | cleared kind => cases kind
      | finished kind => cases kind
      | ignored kind => cases kind
  | @more part payload rest split remains =>
      rcases decodeBatch_fragment_image solid sound content with
        ⟨outcome, dbuf, run, accepts, outcomeSound, afterSound⟩
      have priority := (at_ part rfl).1
      have received : Receives p fragMaxSize defrag bytes outcome _ :=
        ⟨run, afterSound, get_set_others priority defrag dbuf⟩
      have behind : Behind (defrag.get (stream part.qos))
          part.qos.congestionControl counters (some part) := by
        rw [stream, priority]
        exact lagging part.qos.congestionControl
      have sent := bounded.sent part.qos.congestionControl
      rw [Counters.sent_bump, if_pos rfl] at sent
      cases accepts with
      | started kind => cases kind
      | refused kind => cases kind
      | continued kind payloadEq expects =>
          refine ⟨_, _, [], received, List.nil_sublist _, rfl,
            lagging_set step lagging ?_⟩
          refine behind_taken ?_ expects.2.1.symm ?_
          · rw [← expects.1]
            exact Counters.next_number _ _
          · rintro other same
            cases same
            rw [Bytes.toVec_extend, payloadEq,
              behind.front_eq sent bounded.fragmented expects]
      | cleared kind unexpected =>
          exact ⟨_, _, [], received, List.nil_sublist _, rfl,
            lagging_set step lagging (behind_cleared step behind)⟩
      | finished kind => cases kind
      | ignored kind => cases kind
  | @last part payload split =>
      rcases decodeBatch_fragment_image solid sound content with
        ⟨outcome, dbuf, run, accepts, outcomeSound, afterSound⟩
      have priority := (at_ part rfl).1
      have received : Receives p fragMaxSize defrag bytes outcome _ :=
        ⟨run, afterSound, get_set_others priority defrag dbuf⟩
      have behind : Behind (defrag.get (stream part.qos))
          part.qos.congestionControl counters (some part) := by
        rw [stream, priority]
        exact lagging part.qos.congestionControl
      have sent := bounded.sent part.qos.congestionControl
      rw [Counters.sent_bump, if_pos rfl] at sent
      cases accepts with
      | started kind => cases kind
      | refused kind => cases kind
      | continued kind => cases kind
      | cleared kind => cases kind
      | finished kind sameStream payloadEq expects =>
          refine ⟨_, _, [part.message], received, List.Sublist.refl _, ?_,
            lagging_set step lagging ?_⟩
          · have front := behind.front_eq sent bounded.fragmented expects
            have holds := holdsMessages_reassembled outcomeSound
              (by rw [Bytes.toVec_extend, front, payloadEq, split])
              (at_ part rfl).2
            have same : _ = p :=
              (congrArg Stream.priority sameStream).trans priority
            rw [← same]
            exact holds
          · refine behind_taken ?_ expects.2.1.symm ?_
            · rw [← expects.1]
              exact Counters.next_number _ _
            · rintro other impossible
              cases impossible
      | ignored kind unexpected =>
          exact ⟨_, _, [], received, List.nil_sublist _, rfl,
            lagging_set step lagging (behind_missed step behind)⟩

end Rx
end Thubo
