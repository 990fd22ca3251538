import Thubo.Pipeline.Emission

/-!
# What the steps of a push leave in a batch of any size

A batch may be too small for a header.  Then a push fails to encode its
message and leaves a part of the header in the booked batch, into which later
pushes write.  The lemmas of this file say what a step of push leaves in a
batch of any size.
-/

namespace Thubo
namespace Tx

/-! ## Writes that fail -/

/-- A program that fails has written something if there was any room. -/
def Grows (program : Cursor BoxBuf Unit) : Prop :=
  ∀ buf after, program buf = .err after → 0 < buf.remaining →
    buf.data.length < after.data.length

namespace Grows

/-- A single byte is written if there is any room. -/
theorem writeU8 (byte : UInt8) : Grows (Writer.writeU8 byte) := by
  intro buf after failed room
  have written := (Writes.writeExact [byte] buf).1 room
  change BoxBuf.writeExact [byte] buf = _ at failed
  rw [written] at failed
  cases failed

/-- What comes first has been written when what follows it fails. -/
theorem seq {first second : Cursor BoxBuf Unit} {front back : List UInt8}
    (grows : Grows first) (nonempty : front ≠ [])
    (writesFirst : Writes first front) (writesSecond : Writes second back) :
    Grows (first >>= fun _ => second) := by
  intro buf after failed room
  by_cases fits : front.length ≤ buf.remaining
  · have ran := (writesFirst buf).1 fits
    rw [Cursor.bind_ok ran] at failed
    have positive := List.length_pos_iff.2 nonempty
    have spec := writesSecond (buf.append front fits)
    by_cases more : back.length ≤ (buf.append front fits).remaining
    · rw [spec.1 more] at failed
      cases failed
    · rcases spec.2 (Nat.lt_of_not_le more) with
        ⟨later, stopped, _, grown⟩
      rw [stopped] at failed
      cases failed
      have length := grown.length_le
      rw [BoxBuf.append_data, List.length_append] at length
      omega
  · rcases (writesFirst buf).2 (Nat.lt_of_not_le fits) with
      ⟨later, stopped, _, _⟩
    rw [Cursor.bind_err stopped] at failed
    cases failed
    exact grows buf after stopped room

/-- A message header begins with a byte of its own. -/
theorem header (header : MessageHeader) : Grows header.write :=
  (writeU8 header.header).seq (List.cons_ne_nil header.header [])
    (Writes.writeExact [header.header]) header.seqNum.write_writes

theorem message (message : Message) : Grows message.write :=
  (header message.header).seq (List.cons_ne_nil _ _)
    message.header.write_writes message.body.write_writes

end Grows

namespace WriteBatch

/-- A batch whose frame can be written to. -/
structure Writable (batchSize : Nat) (batch : WriteBatch) : Prop where
  headed : batch.Headed
  whole : batch.fragment = Bytes.new
  capacity_eq : batch.frame.capacity = BATCH_LEN + batchSize

variable {batchSize : Nat} {batch after : WriteBatch}

theorem Fresh.writable (fresh : batch.Fresh batchSize) :
    batch.Writable batchSize :=
  ⟨fresh.headed, fresh.fragment_eq, fresh.capacity_eq⟩

theorem Writable.flagged (writable : batch.Writable batchSize)
    (drop : Option Nat) :
    ({ batch with drop := drop } : WriteBatch).Writable batchSize :=
  ⟨writable.headed, writable.whole, writable.capacity_eq⟩

/-- The room left is what the content does not take. -/
theorem Writable.remaining_eq (writable : batch.Writable batchSize) :
    batch.frame.remaining = batchSize - batch.content.length := by
  have length := batch.length_content
  have headed := writable.headed
  have nothing : Bytes.new.len = 0 := rfl
  unfold Headed at headed
  rw [writable.whole, nothing] at length
  rw [BoxBuf.remaining, writable.capacity_eq, length, BoxBuf.len]
  omega

/-- The content of a batch that can be written to fits its size. -/
theorem Writable.length_le (writable : batch.Writable batchSize) :
    batch.content.length ≤ batchSize := by
  have length := batch.length_content
  have nothing : Bytes.new.len = 0 := rfl
  have fits := batch.frame.fits
  rw [writable.whole, nothing] at length
  rw [writable.capacity_eq] at fits
  rw [length, BoxBuf.len]
  omega

theorem Writable.put (writable : batch.Writable batchSize)
    {bytes : List UInt8} (room : bytes.length ≤ batch.frame.remaining) :
    (batch.put bytes room).Writable batchSize :=
  ⟨writable.headed.put room, writable.whole, writable.capacity_eq⟩

/-- The length of a batch that can be written to does not wrap. -/
theorem Writable.len_eq (writable : batch.Writable batchSize)
    (small : batchSize ≤ 65535) : batch.len = batch.content.length := by
  have length := batch.length_content
  have le := writable.length_le
  rw [len, ← length, Nat.mod_eq_of_lt (by omega)]

/-- A batch is empty when it has no content. -/
theorem Writable.isEmpty_iff (writable : batch.Writable batchSize)
    (small : batchSize ≤ 65535) :
    batch.isEmpty = true ↔ batch.content = [] := by
  rw [isEmpty, writable.len_eq small, beq_iff_eq, List.length_eq_zero_iff]

/-- What a failed encoding leaves behind: the `extra` bytes. -/
structure Leaves (before after : WriteBatch) (extra : List UInt8) :
    Prop where
  frame_eq : after = { before with frame := after.frame }
  capacity_eq : after.frame.capacity = before.frame.capacity
  data_eq : after.frame.data = before.frame.data ++ extra
  grows : 0 < before.frame.remaining → extra ≠ []

theorem Leaves.fragment_eq {extra : List UInt8}
    (leaves : Leaves batch after extra) :
    after.fragment = batch.fragment := by
  rw [leaves.frame_eq]

theorem Leaves.qos_eq {extra : List UInt8}
    (leaves : Leaves batch after extra) : after.qos = batch.qos := by
  rw [leaves.frame_eq]

theorem Leaves.drop_eq {extra : List UInt8}
    (leaves : Leaves batch after extra) : after.drop = batch.drop := by
  rw [leaves.frame_eq]

theorem Leaves.writable {extra : List UInt8}
    (leaves : Leaves batch after extra)
    (writable : batch.Writable batchSize) : after.Writable batchSize := by
  have headed := writable.headed
  refine ⟨?_, ?_, leaves.capacity_eq.trans writable.capacity_eq⟩
  · unfold Headed at headed ⊢
    rw [leaves.data_eq, List.length_append]
    omega
  · rw [leaves.fragment_eq, writable.whole]

theorem Leaves.content_eq {extra : List UInt8}
    (leaves : Leaves batch after extra)
    (writable : batch.Writable batchSize) :
    after.content = batch.content ++ extra := by
  have headed := writable.headed
  unfold Headed at headed
  simp only [content, leaves.fragment_eq, leaves.data_eq, writable.whole,
    Bytes.toVec_new, List.append_nil]
  rw [List.drop_append_of_le_length headed]

/-- A header that does not fit leaves a part of it behind. -/
theorem leaves_of_err {program : Cursor BoxBuf Unit} {bytes : List UInt8}
    (writes : Writes program bytes) (grows : Grows program)
    {batch : WriteBatch} {frame : BoxBuf}
    (failed : program batch.frame = .err frame) :
    ∃ extra, Leaves batch { batch with frame := frame } extra := by
  have spec := writes batch.frame
  by_cases fits : bytes.length ≤ batch.frame.remaining
  · rw [spec.1 fits] at failed
    cases failed
  · rcases spec.2 (Nat.lt_of_not_le fits) with
      ⟨later, stopped, capacity, extra, grown⟩
    have longer := grows _ _ failed
    rw [stopped] at failed
    cases failed
    refine ⟨extra, rfl, capacity, grown.symm, fun room nothing => ?_⟩
    have strictly := longer room
    rw [← grown, nothing, List.append_nil] at strictly
    exact Nat.lt_irrefl _ strictly

/-- What a fragment leaves: a header and a part of the message. -/
structure Carried (before after : WriteBatch) (header body : List UInt8)
    (reader : BytesReader) (rest : List UInt8) : Prop where
  room : header.length ≤ before.frame.remaining
  content_eq : after.content = before.content ++ header ++ body
  qos_eq : after.qos = before.qos
  drop_eq : after.drop = before.drop
  placed : reader.Placed
  rest_eq : reader.rest = rest

/-- A header is written and chunks of the message follow it. -/
theorem carried_of_read (writable : batch.Writable batchSize)
    {header : List UInt8}
    (room : header.length ≤ batch.frame.remaining) {reader : BytesReader}
    (placed : reader.Placed) {len : Nat}
    (enough : len ≤ reader.rest.length) :
    ∃ chunks after, BytesReader.readChunks len reader = .ok chunks after ∧
      Carried batch
        { batch.put header room with
          fragment := chunks.foldl Bytes.push batch.fragment }
        header (reader.rest.take len) after (reader.rest.drop len) := by
  have read := BytesReader.readChunks_placed placed len
  rw [if_pos enough] at read
  rcases read with ⟨chunks, after, passed, run, bytes, walked, _⟩
  have kept := walked.placed placed
  have frameIn := content_put writable.headed writable.whole room
  have noFragment : (batch.put header room).fragment = Bytes.new :=
    writable.whole
  refine ⟨chunks, _, run, room, ?_, rfl, rfl, kept.1, kept.2⟩
  rw [content, noFragment, Bytes.toVec_new, List.append_nil] at frameIn
  simp only [content, Bytes.toVec_foldl_push, writable.whole,
    Bytes.toVec_new, List.nil_append, bytes] at frameIn ⊢
  rw [frameIn]

/-- The first fragment takes what fits if the message has as much. -/
theorem startFragments_read (writable : batch.Writable batchSize)
    {header : MessageHeader} {fragId : SeqNum} {msg : Bytes}
    (bounded : msg.len < 2 ^ 64)
    (room : (firstHeader header fragId msg).length ≤
      batch.frame.remaining)
    (enough : batch.frame.remaining -
      (firstHeader header fragId msg).length ≤ msg.len) :
    ∃ after reader, batch.startFragments header fragId msg =
        .ok (.written after reader) ∧
      Carried batch after
        (Message.mk header (.fragment (.new .first fragId))).bytes
        (vleBytes msg.len ++ msg.toVec.take
          (batch.frame.remaining - (firstHeader header fragId msg).length))
        reader
        (msg.toVec.drop
          (batch.frame.remaining -
            (firstHeader header fragId msg).length)) := by
  have written := (firstHeader_writes header fragId bounded batch.frame).1
    room
  have left := batch.frame.append_remaining _ room
  rw [← msg.length_toVec, ← BytesReader.rest_reader, ← left] at enough
  rcases carried_of_read writable room (BytesReader.placed_reader msg)
      enough with ⟨chunks, reader, run, carried⟩
  rw [BytesReader.rest_reader, left] at carried
  have short := carried.room
  rw [firstHeader, List.length_append] at short
  unfold startFragments
  simp only [written, run]
  refine ⟨_, reader, rfl, by omega, ?_, carried.qos_eq,
    carried.drop_eq, carried.placed, carried.rest_eq⟩
  refine carried.content_eq.trans ?_
  simp only [firstHeader, List.append_assoc]

/-- The first fragment of a message that is too long for a frame. -/
theorem startFragments_fits (writable : batch.Writable batchSize)
    {header : MessageHeader} {fragId : SeqNum} {msg : Bytes}
    (bounded : msg.len < 2 ^ 64)
    (room : (firstHeader header fragId msg).length ≤
      batch.frame.remaining)
    (tooLong : batch.frame.remaining <
      (Message.mk header (.frame .new)).wLen +
        (vleLen msg.len + msg.len)) :
    ∃ after reader, batch.startFragments header fragId msg =
        .ok (.written after reader) ∧
      Carried batch after
        (Message.mk header (.fragment (.new .first fragId))).bytes
        (vleBytes msg.len ++ msg.toVec.take
          (batch.frame.remaining - (firstHeader header fragId msg).length))
        reader
        (msg.toVec.drop
          (batch.frame.remaining -
            (firstHeader header fragId msg).length)) := by
  apply startFragments_read writable bounded room
  have frameLen := frameWLen_lt header fragId
  have headerLen := length_firstHeader header fragId bounded
  omega

/-- A first header that does not fit leaves a part of it behind. -/
theorem startFragments_fails {batch : WriteBatch} (header : MessageHeader)
    (fragId : SeqNum) {msg : Bytes} (bounded : msg.len < 2 ^ 64)
    (narrow : batch.frame.remaining <
      (firstHeader header fragId msg).length) :
    ∃ after extra, batch.startFragments header fragId msg =
        .ok (.failed .encodingFailed after) ∧ Leaves batch after extra := by
  have program := firstHeader_writes header fragId bounded
  have grows : Grows
      (do
        (Message.mk header (.fragment (.new .first fragId))).write
        writeU64 msg.len) :=
    (Grows.message _).seq (List.cons_ne_nil _ _) (Message.write_writes _)
      (writeU64_writes bounded)
  rcases (program batch.frame).2 narrow with ⟨frame, failed, _, _⟩
  rcases leaves_of_err program grows failed with ⟨extra, leaves⟩
  unfold startFragments
  simp only [failed]
  exact ⟨_, extra, rfl, leaves⟩

/-- The first fragment of a message is written, or its header is left. -/
theorem startFragments_cases (writable : batch.Writable batchSize)
    (header : MessageHeader) (fragId : SeqNum) {msg : Bytes}
    (bounded : msg.len < 2 ^ 64) :
    (∃ after extra, batch.startFragments header fragId msg =
        .ok (.failed .encodingFailed after) ∧ Leaves batch after extra) ∨
    ∃ taken after reader, batch.startFragments header fragId msg =
        .ok (.written after reader) ∧
      Carried batch after
        (Message.mk header (.fragment (.new .first fragId))).bytes
        (vleBytes msg.len ++ msg.toVec.take taken) reader
        (msg.toVec.drop taken) := by
  by_cases room :
      (firstHeader header fragId msg).length ≤ batch.frame.remaining
  · by_cases enough : batch.frame.remaining -
        (firstHeader header fragId msg).length ≤ msg.len
    · exact Or.inr ⟨_, startFragments_read writable bounded room enough⟩
    · left
      have written :=
        (firstHeader_writes header fragId bounded batch.frame).1 room
      have read := BytesReader.readChunks_placed
        (BytesReader.placed_reader msg)
        (batch.frame.append _ room).remaining
      rw [← batch.frame.append_remaining _ room, ← msg.length_toVec,
        ← BytesReader.rest_reader] at enough
      rw [if_neg enough] at read
      unfold startFragments
      simp only [written, read]
      refine ⟨_, firstHeader header fragId msg, rfl, rfl, rfl, rfl, ?_⟩
      intro _
      exact List.append_ne_nil_of_left_ne_nil (List.cons_ne_nil _ _) _
  · exact Or.inl (startFragments_fails header fragId bounded
      (Nat.lt_of_not_le room))

/-- A fragment with room for all the rest is the last one. -/
def kindOf (room rest : Nat) : FragmentKind :=
  if room ≥ rest then .last else .more

/-- A further fragment is written when there is room for its header. -/
theorem continueFragments_fits (writable : batch.Writable batchSize)
    (header : MessageHeader) (fragId : SeqNum) {reader : BytesReader}
    (placed : reader.Placed)
    (fits : fragmentWLen header fragId ≤ batch.frame.remaining) :
    ∃ after next, batch.continueFragments header fragId reader =
        .ok (.written after next) ∧
      Carried batch after
        (Message.mk header (.fragment (.new
          (kindOf (batch.frame.remaining - fragmentWLen header fragId)
            reader.rest.length) fragId))).bytes
        (reader.rest.take
          (batch.frame.remaining - fragmentWLen header fragId)) next
        (reader.rest.drop
          (batch.frame.remaining - fragmentWLen header fragId)) := by
  have capacity : checkedSub batch.frame.remaining
      (Message.mk header (.fragment (.new .more fragId))).wLen =
        .ok (batch.frame.remaining - fragmentWLen header fragId) := by
    rw [wLen_fragment, checkedSub_of_le fits]
  -- the kind only decides which of two headers of one length is written
  have chosen :
      (if batch.frame.remaining - fragmentWLen header fragId ≥
          reader.rest.length then
          Message.mk header (.fragment (.new .last fragId))
        else Message.mk header (.fragment (.new .more fragId))) =
        Message.mk header (.fragment (.new
          (kindOf (batch.frame.remaining - fragmentWLen header fragId)
            reader.rest.length) fragId)) := by
    unfold kindOf
    split <;> rfl
  generalize kindOf (batch.frame.remaining - fragmentWLen header fragId)
    reader.rest.length = kind at chosen ⊢
  have program := Message.write_writes
    (Message.mk header (.fragment (.new kind fragId)))
  have room : (Message.mk header
      (.fragment (.new kind fragId))).bytes.length ≤
        batch.frame.remaining := by
    rw [Message.length_bytes, wLen_fragment]
    exact fits
  simp only [continueFragments, capacity, ok_bind,
    placed.remaining_eq, chosen]
  rcases carried_of_read writable room placed
      (Nat.min_le_left _ (batch.frame.remaining -
        fragmentWLen header fragId)) with
    ⟨chunks, next, run, carried⟩
  rw [Nat.min_comm, ← List.take_eq_take_min,
    ← List.drop_eq_drop_min] at carried
  simp only [(program batch.frame).1 room, run]
  exact ⟨_, next, rfl, carried⟩

/-- A further fragment is written, or its header is longer than a batch. -/
theorem continueFragments_cases (writable : batch.Writable batchSize)
    (header : MessageHeader) (fragId : SeqNum) {reader : BytesReader}
    (placed : reader.Placed) :
    (∃ fault, batch.continueFragments header fragId reader =
        .error fault) ∨
    ∃ kind taken after next, batch.continueFragments header fragId reader =
        .ok (.written after next) ∧
      Carried batch after
        (Message.mk header (.fragment (.new kind fragId))).bytes
        (reader.rest.take taken) next (reader.rest.drop taken) := by
  by_cases fits : fragmentWLen header fragId ≤ batch.frame.remaining
  · exact Or.inr
      ⟨_, _, continueFragments_fits writable header fragId placed fits⟩
  · left
    have capacity : checkedSub batch.frame.remaining
        (Message.mk header (.fragment (.new .more fragId))).wLen =
          .error .arithmetic := by
      rw [wLen_fragment, checkedSub, if_neg fits]
    exact ⟨.arithmetic, by
      simp only [continueFragments, capacity, error_bind]⟩

end WriteBatch

end Tx
end Thubo
