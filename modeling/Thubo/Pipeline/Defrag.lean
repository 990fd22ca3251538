import Thubo.Codec.Message

/-!
# Decoding and defragmentation of received batches

The first half of the receiver's push: the header of a batch is decoded, and
a fragment is added to the buffer of its stream.  The result says whether the
batch is rejected, kept for reassembly, or ready for the ring of its priority.

The specification lemmas state the same step on the plain bytes of the batch.
-/

namespace Thubo
namespace Rx

/-- Errors of the receiver's push. -/
inductive SendError where
  | decodingFailed
  | invalidSeqNum
  | invalidFragId
  | capacityLimit
  | channelClosed
  | timeout
  | internalError
deriving DecidableEq, Repr

/-! ## Reassembly buffers -/

/-- Buffer for reassembling fragmented messages. -/
structure DefragBuffer where
  /-- Expected sequence number of the next fragment. -/
  seqNum : SeqNum
  /-- Fragment identifier of the message being reassembled. -/
  fragId : SeqNum
  /-- Accumulated payload. -/
  buffer : Bytes
deriving DecidableEq, Repr

namespace DefragBuffer

def new : DefragBuffer :=
  ⟨SeqNum.new 0, SeqNum.new 0, Bytes.new⟩

/-- Clear the accumulated payload; the expectations stay. -/
def clear (dbuf : DefragBuffer) : DefragBuffer :=
  { dbuf with buffer := dbuf.buffer.clear }

/-- Expect a new message. -/
def sync (dbuf : DefragBuffer) (seqNum fragId : SeqNum) : DefragBuffer :=
  { dbuf with seqNum := seqNum, fragId := fragId }

/-- Add a fragment after validating it. -/
def extend (dbuf : DefragBuffer) (seqNum fragId : SeqNum) (bytes : Bytes)
    (capacity : Nat) : Except SendError DefragBuffer :=
  if seqNum ≠ dbuf.seqNum then
    .error .invalidSeqNum
  else if fragId ≠ dbuf.fragId then
    .error .invalidFragId
  else if dbuf.buffer.len + bytes.len > capacity then
    .error .capacityLimit
  else
    .ok
      { seqNum := dbuf.seqNum.next
        fragId := dbuf.fragId
        buffer := dbuf.buffer.extend bytes }

/-- The reassembled message, and the buffer left empty. -/
def take (dbuf : DefragBuffer) : Bytes × DefragBuffer :=
  (dbuf.buffer, { dbuf with buffer := Bytes.new })

end DefragBuffer

/-- A stream of fragments: its congestion control and its priority. -/
structure Stream where
  congestionControl : CongestionControl
  priority : Priority
deriving DecidableEq, Repr

/-- The stream a message belongs to. -/
def stream (qos : QoS) : Stream :=
  ⟨qos.congestionControl, qos.priority⟩

/-- One buffer for every congestion control and priority. -/
structure Defragmentation where
  block : Priority → DefragBuffer
  drop : Priority → DefragBuffer

namespace Defragmentation

def new : Defragmentation :=
  ⟨fun _ => .new, fun _ => .new⟩

/-- The buffer of a stream. -/
def get (defrag : Defragmentation) (stream : Stream) : DefragBuffer :=
  match stream.congestionControl with
  | .block => defrag.block stream.priority
  | .drop => defrag.drop stream.priority

/-- Replace the buffer of a stream. -/
def set (defrag : Defragmentation) (stream : Stream)
    (dbuf : DefragBuffer) : Defragmentation :=
  match stream.congestionControl with
  | .block =>
      { defrag with
        block := Priority.update defrag.block stream.priority dbuf }
  | .drop =>
      { defrag with
        drop := Priority.update defrag.drop stream.priority dbuf }

@[simp]
theorem get_set (defrag : Defragmentation) (stream other : Stream)
    (dbuf : DefragBuffer) :
    (defrag.set stream dbuf).get other =
      if other = stream then dbuf else defrag.get other := by
  obtain ⟨cc, p⟩ := stream
  obtain ⟨cc', p'⟩ := other
  cases cc <;> cases cc' <;> simp [set, get, Priority.update_apply]

/-- Storing a buffer where it is changes nothing. -/
@[simp]
theorem set_get (defrag : Defragmentation) (stream : Stream) :
    defrag.set stream (defrag.get stream) = defrag := by
  obtain ⟨cc, p⟩ := stream
  cases cc <;>
    simp [set, get, Priority.update_self]

@[simp]
theorem get_new (stream : Stream) : new.get stream = DefragBuffer.new := by
  obtain ⟨cc, p⟩ := stream
  cases cc <;> rfl

end Defragmentation

/-! ## The decoding half of push -/

/-- A batch in a receive ring, with the position of its next message. -/
structure ReadBatch where
  bytes : Bytes
  qos : QoS
  pos : BytesPos
deriving DecidableEq, Repr

/-- How the decoding half of push ends. -/
inductive Decoded where
  /-- Push returns an error. -/
  | reject (error : SendError)
  /-- Push returns `Ok(true)`: the fragment is kept for reassembly. -/
  | kept
  /-- Push goes on to the ring with this batch. -/
  | deliver (batch : ReadBatch)
deriving DecidableEq, Repr

/--
Add a fragment to the buffer of its stream.  `view` is the view of the batch
from the end of its header.
-/
def acceptFragment (defrag : Defragmentation) (header : MessageHeader)
    (fragId : SeqNum) (kind : FragmentKind) (view : Option Bytes)
    (capacity : Nat) : Decoded × Defragmentation :=
  let qos := header.qos
  let dbuf := defrag.get (stream qos)
  let store := defrag.set (stream qos)
  match kind with
  | .first =>
      let dbuf := (dbuf.clear).sync header.seqNum fragId
      match view with
      | none => (.reject .internalError, store dbuf)
      | some bytes =>
          match dbuf.extend header.seqNum fragId bytes capacity with
          | .error error => (.reject error, store dbuf)
          | .ok dbuf => (.kept, store dbuf)
  | .more =>
      match view with
      | none => (.reject .internalError, defrag)
      | some bytes =>
          match dbuf.extend header.seqNum fragId bytes capacity with
          | .error error => (.reject error, store dbuf.clear)
          | .ok dbuf => (.kept, store dbuf)
  | .last =>
      match view with
      | none => (.reject .internalError, defrag)
      | some bytes =>
          match dbuf.extend header.seqNum fragId bytes capacity with
          | .error error => (.reject error, defrag)
          | .ok dbuf =>
              let (bytes, dbuf) := dbuf.take
              (.deliver ⟨bytes, qos, .zero⟩, store dbuf)

/-- Decode a batch and defragment it, up to the push into the ring. -/
def decodeBatch (defrag : Defragmentation) (bytes : Bytes)
    (fragMaxSize : Nat) : Except Fault (Decoded × Defragmentation) :=
  match Message.read bytes.reader with
  | .fault fault => .error fault
  | .err _ => .ok (.reject .decodingFailed, defrag)
  | .ok message reader => do
      let remaining ← Reader.remaining reader
      let start ← checkedSub bytes.len remaining
      match message.body with
      | .frame _ =>
          return (.deliver ⟨bytes, message.header.qos, reader.mark⟩, defrag)
      | .fragment f =>
          let kind ← f.kind
          let view ← bytes.view (.included start) .unbounded
          return acceptFragment defrag message.header f.fragId kind view
            fragMaxSize

/-! ## The next message of a batch -/

/-- Decode the next message of a batch; nothing when no message is left. -/
def ReadBatch.next (batch : ReadBatch) :
    Except Fault (Option (Bytes × QoS × ReadBatch)) :=
  let (found, reader) := batch.bytes.reader.seek batch.pos
  if found then
    match Bytes.read reader with
    | .fault fault => .error fault
    | .err _ => .ok none
    | .ok t reader =>
        .ok (some (t, batch.qos, { batch with pos := reader.mark }))
  else
    .ok none

/-- A batch keeps its quality of service and passes it on. -/
theorem ReadBatch.next_qos {batch changed : ReadBatch} {t : Bytes}
    {qos : QoS} (next : batch.next = .ok (some (t, qos, changed))) :
    qos = batch.qos ∧ changed.qos = batch.qos := by
  unfold ReadBatch.next at next
  dsimp only at next
  split at next
  · split at next
    · cases next
    · cases next
    · cases next
      exact ⟨rfl, rfl⟩
  · cases next

/-! ## Specifications on plain bytes -/

/-- A batch whose position is that of a settled reader. -/
def ReadBatch.Sound (batch : ReadBatch) : Prop :=
  BytesReader.Settled ⟨batch.bytes, batch.pos⟩

/-- The bytes of a batch that have not been decoded yet. -/
def ReadBatch.rest (batch : ReadBatch) : List UInt8 :=
  BytesReader.rest ⟨batch.bytes, batch.pos⟩

/-- A frame is delivered with the position after its header. -/
structure FrameOf (bytes : Bytes) (qos : QoS) (rest : List UInt8)
    (batch : ReadBatch) : Prop where
  bytes_eq : batch.bytes = bytes
  qos_eq : batch.qos = qos
  sound : batch.Sound
  rest_eq : batch.rest = rest

/-- Undecodable bytes are rejected and change nothing. -/
theorem decodeBatch_invalid {bytes : Bytes} (solid : bytes.NoEmptyChunk)
    (parsed : Parser.message bytes.toVec = none)
    (defrag : Defragmentation) (fragMaxSize : Nat) :
    decodeBatch defrag bytes fragMaxSize =
      .ok (.reject .decodingFailed, defrag) := by
  have refines := Message.read_refines
    (BytesReader.settled_lawful bytes).readU8
  have valid := BytesReader.settled_valid_reader solid
  obtain ⟨after, run⟩ := refines.run_err valid (by
    change Parser.message bytes.reader.rest = none
    rwa [BytesReader.rest_reader])
  simp only [decodeBatch, run]

/-- The reader after a decoded header. -/
theorem read_message {bytes : Bytes} (solid : bytes.NoEmptyChunk)
    {message : Message} {rest : List UInt8}
    (parsed : Parser.message bytes.toVec = some (message, rest)) :
    ∃ reader, Message.read bytes.reader = .ok message reader ∧
      reader.inner = bytes ∧ reader.Settled ∧ reader.rest = rest := by
  have refines := Message.read_refines
    (BytesReader.settled_lawful bytes).readU8
  have valid := BytesReader.settled_valid_reader solid
  rw [← BytesReader.rest_reader] at parsed
  obtain ⟨value, after, run, rfl, afterValid, restEq⟩ :=
    refines.run_ok valid parsed
  exact ⟨after, run, afterValid.1, afterValid.2, restEq⟩

/-- A frame is delivered whole, at the position after its header. -/
theorem decodeBatch_frame {bytes : Bytes} (solid : bytes.NoEmptyChunk)
    {header : MessageHeader} {frame : FrameHeader} {rest : List UInt8}
    (parsed : Parser.message bytes.toVec =
      some (⟨header, .frame frame⟩, rest))
    (defrag : Defragmentation) (fragMaxSize : Nat) :
    ∃ batch, FrameOf bytes header.qos rest batch ∧
      decodeBatch defrag bytes fragMaxSize =
        .ok (.deliver batch, defrag) := by
  obtain ⟨reader, run, rfl, settled, restEq⟩ := read_message solid parsed
  refine ⟨⟨reader.inner, header.qos, reader.mark⟩,
    ⟨rfl, rfl, settled, restEq⟩, ?_⟩
  have shorter := reader.rest_suffix.length_le
  rw [Bytes.length_toVec] at shorter
  have remaining : Reader.remaining reader = .ok reader.rest.length :=
    settled.placed.remaining_eq
  simp only [decodeBatch, run, remaining, ok_bind, checkedSub_of_le shorter]
  rfl

/-- A fragment is added to its stream with the payload after its header. -/
theorem decodeBatch_fragment {bytes : Bytes} (solid : bytes.NoEmptyChunk)
    {header : MessageHeader} {fragment : FragmentHeader}
    {rest : List UInt8}
    (parsed : Parser.message bytes.toVec =
      some (⟨header, .fragment fragment⟩, rest))
    (defrag : Defragmentation) (fragMaxSize : Nat) :
    ∃ view : Bytes, view.Holds rest ∧
      decodeBatch defrag bytes fragMaxSize = (do
        let kind ← fragment.kind
        return acceptFragment defrag header fragment.fragId kind
          (some view) fragMaxSize) := by
  obtain ⟨reader, run, rfl, settled, rfl⟩ := read_message solid parsed
  have shorter := reader.rest_suffix.length_le
  rw [Bytes.length_toVec] at shorter
  obtain ⟨view, viewed, content, noEmpty⟩ :=
    reader.inner.view_of_le
      (.included (reader.inner.len - reader.rest.length)) .unbounded
      rfl rfl (Nat.sub_le _ _) (Nat.le_refl _)
  refine ⟨view, ⟨?_, noEmpty solid⟩, ?_⟩
  · have suffix := List.suffix_iff_eq_drop.1 reader.rest_suffix
    rw [Bytes.length_toVec] at suffix
    rw [content, ← suffix, List.take_of_length_le (by omega)]
  · have remaining : Reader.remaining reader = .ok reader.rest.length :=
      settled.placed.remaining_eq
    simp only [decodeBatch, run, remaining, ok_bind,
      checkedSub_of_le shorter, viewed]

/-- The next message of a sound batch is the next payload of its bytes. -/
theorem ReadBatch.next_spec {batch : ReadBatch} (sound : batch.Sound) :
    match Parser.payload batch.rest with
    | none => batch.next = .ok none
    | some (content, rest) =>
        ∃ t after, batch.next = .ok (some (t, batch.qos, after)) ∧
          t.Holds content ∧ after.bytes = batch.bytes ∧
          after.qos = batch.qos ∧ after.Sound ∧ after.rest = rest := by
  have sought := BytesReader.seek_settled sound batch.bytes.reader rfl
  change batch.bytes.reader.seek batch.pos =
    if batch.rest = [] then _ else _ at sought
  by_cases atEnd : batch.rest = []
  · have parsed : Parser.payload batch.rest = none := by
      rw [atEnd]
      rfl
    rw [parsed]
    simp only [next, sought, if_pos atEnd]
    rfl
  · have refines := Bytes.read_refines
      (BytesReader.settled_lawful batch.bytes)
    have valid : (BytesReader.settled batch.bytes).valid
        ⟨batch.bytes, batch.pos⟩ := ⟨rfl, sound⟩
    cases parsed : Parser.payload batch.rest with
    | none =>
        obtain ⟨after, run⟩ := refines.run_err valid parsed
        simp only [next, sought, if_neg atEnd, if_true, run]
    | some result =>
        obtain ⟨content, rest⟩ := result
        obtain ⟨t, after, run, holds, afterValid, restEq⟩ :=
          refines.run_ok valid parsed
        obtain ⟨inner, cursor⟩ := after
        obtain ⟨innerEq, settled⟩ := afterValid
        cases innerEq
        refine ⟨t, { batch with pos := cursor }, ?_, holds, rfl, rfl,
          settled, restEq⟩
        simp only [next, sought, if_neg atEnd, if_true, run]
        rfl

/-! ## The four ways a batch is decoded -/

/-- The priority in the header of a batch, when there is a header. -/
def destination (bytes : Bytes) : Option Priority :=
  match Message.read bytes.reader with
  | .ok message _ => some message.header.qos.priority
  | _ => none

/-- What decoding a batch does, whatever the buffers hold. -/
inductive Decoding (bytes : Bytes) (fragMaxSize : Nat) : Prop where
  | faults (fault : Fault)
      (always : ∀ defrag,
        decodeBatch defrag bytes fragMaxSize = .error fault)
  | invalid (nowhere : destination bytes = none)
      (always : ∀ defrag, decodeBatch defrag bytes fragMaxSize =
        .ok (.reject .decodingFailed, defrag))
  | frame (batch : ReadBatch) (whole : batch.bytes = bytes)
      (own : destination bytes = some batch.qos.priority)
      (always : ∀ defrag, decodeBatch defrag bytes fragMaxSize =
        .ok (.deliver batch, defrag))
  | fragment (header : MessageHeader) (fragId : SeqNum)
      (kind : FragmentKind) (view : Option Bytes)
      (own : destination bytes = some header.qos.priority)
      (always : ∀ defrag, decodeBatch defrag bytes fragMaxSize =
        .ok (acceptFragment defrag header fragId kind view fragMaxSize))

/-- Only a fragment looks at the buffers. -/
theorem decodeBatch_decoding (bytes : Bytes) (fragMaxSize : Nat) :
    Decoding bytes fragMaxSize := by
  cases read : Message.read bytes.reader with
  | fault fault =>
      exact .faults fault fun defrag => by rw [decodeBatch, read]
  | err reader =>
      exact .invalid (by rw [destination, read]) fun defrag => by
        rw [decodeBatch, read]
  | ok message reader =>
      have own : destination bytes = some message.header.qos.priority := by
        rw [destination, read]
      cases remaining : Reader.remaining reader with
      | error fault =>
          exact .faults fault fun defrag => by
            simp only [decodeBatch, read, remaining, error_bind]
      | ok left =>
          cases start : checkedSub bytes.len left with
          | error fault =>
              exact .faults fault fun defrag => by
                simp only [decodeBatch, read, remaining, start, ok_bind,
                  error_bind]
          | ok place =>
              cases body : message.body with
              | frame f =>
                  exact .frame ⟨bytes, message.header.qos, reader.mark⟩ rfl
                    own fun defrag => by
                      simp only [decodeBatch, read, remaining, start, body,
                        ok_bind]
                      rfl
              | fragment f =>
                  cases declared : f.kind with
                  | error fault =>
                      exact .faults fault fun defrag => by
                        simp only [decodeBatch, read, remaining, start, body,
                          declared, ok_bind, error_bind]
                  | ok kind =>
                      cases viewed :
                          bytes.view (.included place) .unbounded with
                      | error fault =>
                          exact .faults fault fun defrag => by
                            simp only [decodeBatch, read, remaining, start,
                              body, declared, viewed, ok_bind, error_bind]
                      | ok view =>
                          exact .fragment message.header f.fragId kind view
                            own fun defrag => by
                              simp only [decodeBatch, read, remaining, start,
                                body, declared, viewed, ok_bind]
                              rfl

end Rx
end Thubo
