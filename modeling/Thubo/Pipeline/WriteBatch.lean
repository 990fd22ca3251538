import Thubo.Codec.Message

/-!
# Write batches and the steps that fill them

A write batch is a fixed-capacity frame, which starts with two bytes for the
length, followed by chunks of a fragmented message.  The steps of the
transmit push that touch a batch are functions here: append to a frame, start
a frame, start a fragmented message and continue one.
-/

namespace Thubo
namespace Tx

/-- Errors of the transmit push. -/
inductive SendError where
  | dropped
  | timeout
  | encodingFailed
  | closed
  | internal
deriving DecidableEq, Repr

/-- A batch of the transmit pipeline. -/
structure WriteBatch where
  frame : BoxBuf
  fragment : Bytes
  qos : QoS
  /-- The identity of the shared drop flag. -/
  drop : Option Nat
deriving DecidableEq, Repr

namespace WriteBatch

/-- The number of bytes of the length. -/
def BATCH_LEN : Nat := 2

/-- Empty the batch and reserve the length bytes. -/
def clear (batch : WriteBatch) : WriteBatch :=
  let frame := batch.frame.clear
  { batch with
    frame :=
      match BoxBuf.writeExact [0, 0] frame with
      | .ok _ frame => frame
      | _ => frame
    fragment := batch.fragment.clear
    drop := none }

/-- A new batch that can hold `capacity` bytes after its length. -/
def alloc (capacity : Nat) : WriteBatch :=
  clear
    { frame := .withCapacity (BATCH_LEN + capacity)
      fragment := .new
      qos := .DEFAULT
      drop := none }

/-- The length as a `u16`. -/
def len (batch : WriteBatch) : Nat :=
  (batch.frame.len - BATCH_LEN + batch.fragment.len) % 2 ^ 16

def isEmpty (batch : WriteBatch) : Bool :=
  batch.len == 0

/-- Fill in the length, as a little-endian `u16`. -/
def writeLen (batch : WriteBatch) : WriteBatch :=
  { batch with
    frame :=
      { capacity := batch.frame.capacity
        data := (batch.frame.data.set 0 (UInt8.ofNat batch.len)).set 1
          (UInt8.ofNat (batch.len >>> 8))
        fits := by
          simp only [List.length_set]
          exact batch.frame.fits } }

/-- The bytes after the length. -/
def content (batch : WriteBatch) : List UInt8 :=
  batch.frame.data.drop BATCH_LEN ++ batch.fragment.toVec

/-- The bytes the write task hands to the writer. -/
def image (batch : WriteBatch) : List UInt8 :=
  batch.frame.data ++ batch.fragment.toVec

/-! ## The steps of push -/

/--
Run an encoder on the frame.  A failed encoding is undone by rewinding to the
mark taken before it.
-/
def encode (batch : WriteBatch) (program : Cursor BoxBuf Unit) :
    Except Fault (Bool × WriteBatch) :=
  let mark := batch.frame.mark
  match program batch.frame with
  | .ok _ frame => .ok (true, { batch with frame := frame })
  | .err frame => .ok (false, { batch with frame := frame.rewind mark })
  | .fault fault => .error fault

/-- Append a message to the frame of a batch. -/
def append (batch : WriteBatch) (msg : Bytes) :
    Except Fault (Bool × WriteBatch) :=
  batch.encode msg.write

/-- Write a frame header and a message on a fresh batch. -/
def startFrame (batch : WriteBatch) (header : MessageHeader)
    (msg : Bytes) : Except Fault (Bool × WriteBatch) :=
  batch.encode do
    (Message.mk header (.frame .new)).write
    msg.write

/-- How a fragmenting step ends. -/
inductive Fragmented where
  /-- The fragment is written; the reader is after its payload. -/
  | written (batch : WriteBatch) (reader : BytesReader)
  /-- The step fails and leaves the batch booked as it is. -/
  | failed (error : SendError) (batch : WriteBatch)

/-- Write the first fragment: header, message length, then payload. -/
def startFragments (batch : WriteBatch) (header : MessageHeader)
    (fragId : SeqNum) (msg : Bytes) : Except Fault Fragmented :=
  let program : Cursor BoxBuf Unit := do
    (Message.mk header (.fragment (.new .first fragId))).write
    writeU64 msg.len
  match program batch.frame with
  | .fault fault => .error fault
  | .err frame => .ok (.failed .encodingFailed { batch with frame := frame })
  | .ok _ frame =>
      let batch := { batch with frame := frame }
      match BytesReader.readChunks frame.remaining msg.reader with
      | .fault fault => .error fault
      | .err _ => .ok (.failed .encodingFailed batch)
      | .ok chunks reader =>
          .ok (.written
            { batch with fragment := chunks.foldl Bytes.push batch.fragment }
            reader)

/-- Write one more fragment, the last one when the rest fits. -/
def continueFragments (batch : WriteBatch) (header : MessageHeader)
    (fragId : SeqNum) (reader : BytesReader) : Except Fault Fragmented := do
  let more := Message.mk header (.fragment (.new .more fragId))
  let wCapacity ← checkedSub batch.frame.remaining more.wLen
  let rCapacity ← reader.remaining
  let thubo :=
    if wCapacity ≥ rCapacity then
      Message.mk header (.fragment (.new .last fragId))
    else
      more
  match thubo.write batch.frame with
  | .fault fault => .error fault
  | .err frame => .ok (.failed .encodingFailed { batch with frame := frame })
  | .ok _ frame =>
      let batch := { batch with frame := frame }
      match BytesReader.readChunks (min rCapacity wCapacity) reader with
      | .fault fault => .error fault
      | .err _ => .ok (.failed .internal batch)
      | .ok chunks reader =>
          .ok (.written
            { batch with fragment := chunks.foldl Bytes.push batch.fragment }
            reader)

/-! ## Fresh batches -/

/-- A batch just cleared, with room for `capacity` bytes. -/
structure Fresh (capacity : Nat) (batch : WriteBatch) : Prop where
  capacity_eq : batch.frame.capacity = BATCH_LEN + capacity
  data_eq : batch.frame.data = [0, 0]
  fragment_eq : batch.fragment = Bytes.new

theorem alloc_fresh (capacity : Nat) : (alloc capacity).Fresh capacity := by
  have room : [(0 : UInt8), 0].length ≤
      (BoxBuf.withCapacity (BATCH_LEN + capacity)).clear.remaining := by
    simp [BoxBuf.withCapacity, BoxBuf.clear, BoxBuf.remaining, BoxBuf.len,
      BATCH_LEN]
  have written := (Writes.writeExact [0, 0]
    (BoxBuf.withCapacity (BATCH_LEN + capacity)).clear).1 room
  constructor
  · simp only [alloc, clear, written]
    rfl
  · simp only [alloc, clear, written]
    rfl
  · rfl

theorem Fresh.remaining_eq {capacity : Nat} {batch : WriteBatch}
    (fresh : batch.Fresh capacity) : batch.frame.remaining = capacity := by
  simp [BoxBuf.remaining, BoxBuf.len, fresh.capacity_eq, fresh.data_eq,
    BATCH_LEN]

/-! ## What the steps write -/

/-- The batch after `bytes` that fit have been written to its frame. -/
def put (batch : WriteBatch) (bytes : List UInt8)
    (room : bytes.length ≤ batch.frame.remaining) : WriteBatch :=
  { batch with frame := batch.frame.append bytes room }

/-- An encoder writes its bytes or leaves the batch as it was. -/
theorem encode_spec {program : Cursor BoxBuf Unit} {bytes : List UInt8}
    (writes : Writes program bytes) (batch : WriteBatch) :
    (∀ room : bytes.length ≤ batch.frame.remaining,
      batch.encode program = .ok (true, batch.put bytes room)) ∧
    (batch.frame.remaining < bytes.length →
      batch.encode program = .ok (false, batch)) := by
  constructor
  · intro room
    simp only [encode, (writes batch.frame).1 room]
    rfl
  · intro few
    rcases (writes batch.frame).2 few with
      ⟨after, failed, capacity, grown⟩
    simp only [encode, failed, BoxBuf.rewind_mark capacity grown]

/-- The length bytes are in place. -/
def Headed (batch : WriteBatch) : Prop :=
  BATCH_LEN ≤ batch.frame.data.length

theorem Fresh.headed {capacity : Nat} {batch : WriteBatch}
    (fresh : batch.Fresh capacity) : batch.Headed := by
  rw [Headed, fresh.data_eq]
  decide

theorem Headed.put {batch : WriteBatch} (headed : batch.Headed)
    {bytes : List UInt8} (room : bytes.length ≤ batch.frame.remaining) :
    (batch.put bytes room).Headed := by
  unfold Headed at headed ⊢
  simp only [WriteBatch.put, BoxBuf.append_data, List.length_append]
  omega

/-- Writing to the frame of a batch without fragment chunks. -/
theorem content_put {batch : WriteBatch} (headed : batch.Headed)
    (whole : batch.fragment = Bytes.new) {bytes : List UInt8}
    (room : bytes.length ≤ batch.frame.remaining) :
    (batch.put bytes room).content = batch.content ++ bytes := by
  unfold Headed at headed
  simp only [content, put, BoxBuf.append_data, whole, Bytes.toVec_new,
    List.append_nil]
  rw [List.drop_append_of_le_length headed]

/-- A fresh batch is still fresh with a flag to drop. -/
theorem Fresh.flagged {capacity : Nat} {batch : WriteBatch}
    (fresh : batch.Fresh capacity) (drop : Option Nat) :
    ({ batch with drop := drop } : WriteBatch).Fresh capacity :=
  ⟨fresh.capacity_eq, fresh.data_eq, fresh.fragment_eq⟩

theorem Fresh.content_eq {capacity : Nat} {batch : WriteBatch}
    (fresh : batch.Fresh capacity) : batch.content = [] := by
  simp [content, fresh.data_eq, fresh.fragment_eq, BATCH_LEN]

/-- The bytes of a batch after its length fit its capacity. -/
theorem length_content (batch : WriteBatch) :
    batch.content.length =
      batch.frame.len - BATCH_LEN + batch.fragment.len := by
  simp [content, BoxBuf.len, Bytes.length_toVec]

/-- The bytes of a frame with one message. -/
theorem length_frame (header : MessageHeader) {msg : Bytes}
    (bounded : msg.len < 2 ^ 64) :
    ((Message.mk header (.frame .new)).bytes ++ msg.encoded).length =
      (Message.mk header (.frame .new)).wLen + msg.wLen := by
  rw [List.length_append, Message.length_bytes,
    Bytes.length_encoded _ bounded]

/-- A frame is written where its header and its message fit. -/
theorem startFrame_spec (batch : WriteBatch) (header : MessageHeader)
    {msg : Bytes} (bounded : msg.len < 2 ^ 64) :
    (∀ room : ((Message.mk header (.frame .new)).bytes ++
        msg.encoded).length ≤ batch.frame.remaining,
      batch.startFrame header msg = .ok (true, batch.put _ room)) ∧
    (batch.frame.remaining <
        ((Message.mk header (.frame .new)).bytes ++ msg.encoded).length →
      batch.startFrame header msg = .ok (false, batch)) :=
  encode_spec
    ((Message.write_writes _).seq (Bytes.write_writes _ bounded)) batch

/-- The header and length that open a fragmented message. -/
def firstHeader (header : MessageHeader) (fragId : SeqNum)
    (msg : Bytes) : List UInt8 :=
  (Message.mk header (.fragment (.new .first fragId))).bytes ++
    vleBytes msg.len

theorem firstHeader_writes (header : MessageHeader) (fragId : SeqNum)
    {msg : Bytes} (bounded : msg.len < 2 ^ 64) :
    Writes
      (do
        (Message.mk header (.fragment (.new .first fragId))).write
        writeU64 msg.len)
      (firstHeader header fragId msg) :=
  (Message.write_writes _).seq (writeU64_writes bounded)

/-- The length of a fragment header, which does not depend on the kind. -/
def fragmentWLen (header : MessageHeader) (fragId : SeqNum) : Nat :=
  header.wLen + (1 + fragId.wLen)

theorem wLen_fragment (header : MessageHeader) (kind : FragmentKind)
    (fragId : SeqNum) :
    (Message.mk header (.fragment (.new kind fragId))).wLen =
      fragmentWLen header fragId :=
  rfl

/-- A fragment header takes at most ten bytes. -/
theorem fragmentWLen_le (header : MessageHeader) (fragId : SeqNum) :
    fragmentWLen header fragId ≤ 10 := by
  have number := header.seqNum.wLen_le
  have identifier := fragId.wLen_le
  unfold fragmentWLen MessageHeader.wLen
  omega

/-- The header of a fragment is longer than that of a frame. -/
theorem frameWLen_lt (header : MessageHeader) (fragId : SeqNum) :
    (Message.mk header (.frame .new)).wLen <
      fragmentWLen header fragId := by
  have positive := vleLen_pos fragId.get_lt_u64
  change header.wLen + 1 < header.wLen + (1 + vleLen fragId.get)
  omega

theorem length_firstHeader (header : MessageHeader) (fragId : SeqNum)
    {msg : Bytes} (bounded : msg.len < 2 ^ 64) :
    (firstHeader header fragId msg).length =
      fragmentWLen header fragId + vleLen msg.len := by
  rw [firstHeader, List.length_append, Message.length_bytes,
    length_vleBytes bounded, wLen_fragment]

/-- What a fragmenting step leaves behind. -/
structure Wrote (capacity : Nat) (before after : WriteBatch)
    (content : List UInt8) (msg : Bytes) (reader : BytesReader)
    (rest : List UInt8) : Prop where
  headed : after.Headed
  content_eq : after.content = content
  length_le : content.length ≤ capacity
  qos_eq : after.qos = before.qos
  inner_eq : reader.inner = msg
  placed : reader.Placed
  rest_eq : reader.rest = rest

/-- Write a header and some chunks of the message on a fresh batch. -/
theorem wrote_of_read {capacity : Nat} {batch : WriteBatch}
    (fresh : batch.Fresh capacity) {header : List UInt8}
    (room : header.length ≤ batch.frame.remaining) {reader : BytesReader}
    (placed : reader.Placed) (len : Nat)
    (enough : len ≤ reader.rest.length)
    (fits : header.length + len ≤ capacity) :
    ∃ chunks after, BytesReader.readChunks len reader = .ok chunks after ∧
      Wrote capacity batch
        { batch.put header room with
          fragment := chunks.foldl Bytes.push batch.fragment }
        (header ++ reader.rest.take len) reader.inner after
        (reader.rest.drop len) := by
  have read := BytesReader.readChunks_placed placed len
  rw [if_pos enough] at read
  rcases read with ⟨chunks, after, passed, run, bytes, walked, _⟩
  have kept := walked.placed placed
  refine ⟨chunks, _, run, fresh.headed.put room, ?_, ?_, rfl, rfl, kept.1,
    kept.2⟩
  · have headerIn := content_put fresh.headed fresh.fragment_eq room
    rw [fresh.content_eq, List.nil_append] at headerIn
    have frameIn :
        (batch.put header room).frame.data.drop BATCH_LEN = header := by
      simpa [content, put, fresh.fragment_eq] using headerIn
    simp only [content, Bytes.toVec_foldl_push, fresh.fragment_eq,
      Bytes.toVec_new, List.nil_append, bytes, frameIn]
  · simp only [List.length_append, List.length_take]
    omega

/--
A message that does not fit a frame opens with a first fragment that holds its
length and a proper prefix, if the header and the length fit.
-/
theorem startFragments_spec {capacity : Nat} {batch : WriteBatch}
    (fresh : batch.Fresh capacity) (header : MessageHeader)
    (fragId : SeqNum) {msg : Bytes} (bounded : msg.len < 2 ^ 64)
    (headed : fragmentWLen header fragId + vleLen msg.len ≤ capacity)
    (tooLong : capacity <
      (Message.mk header (.frame .new)).wLen + (vleLen msg.len + msg.len)) :
    ∃ taken after reader,
      batch.startFragments header fragId msg =
        .ok (.written after reader) ∧
      taken < msg.len ∧
      Wrote capacity batch after
        (firstHeader header fragId msg ++ msg.toVec.take taken) msg reader
        (msg.toVec.drop taken) := by
  have headerLen := length_firstHeader header fragId bounded
  have remaining := fresh.remaining_eq
  have room : (firstHeader header fragId msg).length ≤
      batch.frame.remaining := by omega
  have frameLen := frameWLen_lt header fragId
  have left : (batch.frame.append _ room).remaining =
      capacity - (firstHeader header fragId msg).length := by
    rw [BoxBuf.append_remaining, remaining]
  have length := msg.length_toVec
  rcases wrote_of_read fresh room (BytesReader.placed_reader msg)
      (capacity - (firstHeader header fragId msg).length)
      (by rw [BytesReader.rest_reader]; omega) (by omega) with
    ⟨chunks, reader, run, wrote⟩
  rw [BytesReader.rest_reader] at wrote
  refine ⟨_, _, reader, ?_, ?_, wrote⟩
  · have written :=
      (firstHeader_writes header fragId bounded batch.frame).1 room
    simp only [startFragments, written, left, run]
    rfl
  · omega

/--
The next fragment, if its header fits, takes as much as fits and is the last
one exactly when nothing is left.
-/
theorem continueFragments_spec {capacity : Nat} {batch : WriteBatch}
    (fresh : batch.Fresh capacity) (header : MessageHeader)
    (fragId : SeqNum) (headed : fragmentWLen header fragId ≤ capacity)
    {reader : BytesReader} (placed : reader.Placed) :
    ∃ taken kind after next,
      batch.continueFragments header fragId reader =
        .ok (.written after next) ∧
      (kind = .more ∨ kind = .last) ∧
      (kind = .last ↔ reader.rest.drop taken = []) ∧
      Wrote capacity batch after
        ((Message.mk header (.fragment (.new kind fragId))).bytes ++
          reader.rest.take taken) reader.inner next
        (reader.rest.drop taken) := by
  have remaining := fresh.remaining_eq
  have rCapacity := placed.remaining_eq
  have wCapacity : checkedSub batch.frame.remaining
      (Message.mk header (.fragment (.new .more fragId))).wLen =
        .ok (capacity - fragmentWLen header fragId) := by
    rw [remaining, wLen_fragment, checkedSub_of_le (by omega)]
  -- the kind is settled by the room that any of the two headers leaves
  have body : ∀ kind,
      (if capacity - fragmentWLen header fragId ≥ reader.rest.length then
          Message.mk header (.fragment (.new .last fragId))
        else Message.mk header (.fragment (.new .more fragId))) =
        Message.mk header (.fragment (.new kind fragId)) →
      (kind = .more ∨ kind = .last) →
      (kind = .last ↔ reader.rest.drop
        (min reader.rest.length
          (capacity - fragmentWLen header fragId)) = []) →
      ∃ taken kind after next,
        batch.continueFragments header fragId reader =
          .ok (.written after next) ∧
        (kind = .more ∨ kind = .last) ∧
        (kind = .last ↔ reader.rest.drop taken = []) ∧
        Wrote capacity batch after
          ((Message.mk header (.fragment (.new kind fragId))).bytes ++
            reader.rest.take taken) reader.inner next
          (reader.rest.drop taken) := by
    intro kind chosen proper final
    have length : (Message.mk header
        (.fragment (.new kind fragId))).bytes.length =
          fragmentWLen header fragId := by
      rw [Message.length_bytes, wLen_fragment]
    have room : (Message.mk header
        (.fragment (.new kind fragId))).bytes.length ≤
          batch.frame.remaining := by omega
    rcases wrote_of_read fresh room placed
        (min reader.rest.length (capacity - fragmentWLen header fragId))
        (Nat.min_le_left _ _) (by omega) with ⟨chunks, next, run, wrote⟩
    refine ⟨_, kind, _, next, ?_, proper, final, wrote⟩
    have written := (Message.write_writes
      (Message.mk header (.fragment (.new kind fragId)))
        batch.frame).1 room
    simp only [continueFragments, wCapacity, rCapacity, ok_bind, chosen,
      written, run]
    rfl
  by_cases fits :
      capacity - fragmentWLen header fragId ≥ reader.rest.length
  · apply body .last (if_pos fits) (Or.inr rfl)
    simp [Nat.min_eq_left fits]
  · apply body .more (if_neg fits) (Or.inl rfl)
    have less := Nat.lt_of_not_le fits
    rw [List.drop_eq_nil_iff]
    constructor
    · intro impossible
      cases impossible
    · intro covers
      omega

end WriteBatch
end Tx
end Thubo
