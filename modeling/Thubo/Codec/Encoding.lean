import Thubo.Buffers.Writers
import Thubo.Codec.Message

/-!
# Encoding into any buffer

Every value with a codec is written with the operations of a writer, so on
every lawful writer it appends the same bytes.  The one exception is a value
that holds an empty chunk: appending an empty chunk is the only write of
nothing that a codec makes, and a vector refuses it.
-/

namespace Thubo

/-! ## The remaining codecs -/

/-- Write a byte slice behind its length. -/
def writeSlice {W : Type} [Writer W] (x : List UInt8) : Cursor W Unit := do
  writeU64 x.length
  if x = [] then
    return ()
  else
    Writer.writeExact x

/-- Write the contents of a chunk behind their length. -/
def Chunk.write {W : Type} [Writer W] (chunk : Chunk) : Cursor W Unit := do
  writeU64 chunk.len
  Writer.writeChunk chunk

/-- The bytes of a slice behind its length. -/
def encodeSlice (x : List UInt8) : List UInt8 :=
  vleBytes x.length ++ x

/-- A value that can be encoded. -/
inductive Value where
  | u8 (x : UInt8)
  | u16 (x : UInt16)
  | u32 (x : UInt32)
  /-- A `u64` or a `usize`. -/
  | u64 (x : UInt64)
  | seqNum (x : SeqNum)
  | array (x : List UInt8) (size : 1 ≤ x.length ∧ x.length ≤ 16)
  | slice (x : List UInt8)
  | string (x : String)
  | chunk (x : Chunk)
  | bytes (x : Bytes)
  | messageHeader (x : MessageHeader)
  | frameHeader (x : FrameHeader)
  | fragmentHeader (x : FragmentHeader)
  | messageBody (x : MessageBody)
  | message (x : Message)

namespace Value

/-- Encode a value. -/
def write {W : Type} [Writer W] : Value → Cursor W Unit
  | u8 x => Writer.writeU8 x
  | u16 x => writeU64 x.toNat
  | u32 x => writeU64 x.toNat
  | u64 x => writeU64 x.toNat
  | seqNum x => x.write
  | array x _ => Writer.writeExact x
  | slice x => writeSlice x
  | string x => writeSlice x.toUTF8.data.toList
  | chunk x => x.write
  | bytes x => x.write
  | messageHeader x => x.write
  | frameHeader x => x.write
  | fragmentHeader x => x.write
  | messageBody x => x.write
  | message x => x.write

/-- The bytes of an encoded value. -/
def encoded : Value → List UInt8
  | u8 x => [x]
  | u16 x => vleBytes x.toNat
  | u32 x => vleBytes x.toNat
  | u64 x => vleBytes x.toNat
  | seqNum x => x.bytes
  | array x _ => x
  | slice x => encodeSlice x
  | string x => encodeSlice x.toUTF8.data.toList
  | chunk x => encodeSlice x.asSlice
  | bytes x => x.encoded
  | messageHeader x => x.bytes
  | frameHeader x => x.bytes
  | fragmentHeader x => x.bytes
  | messageBody x => x.bytes
  | message x => x.bytes

/-- Every length in the value fits a `usize`. -/
def Sized : Value → Prop
  | slice x => x.length < 2 ^ 64
  | string x => x.toUTF8.data.toList.length < 2 ^ 64
  | chunk x => x.len < 2 ^ 64
  | bytes x => x.len < 2 ^ 64
  | _ => True

/-- The value is an empty chunk or a byte string that holds one. -/
def HoldsEmptyChunk : Value → Prop
  | chunk x => x.isEmpty = true
  | bytes x => ∃ chunk ∈ x.chunks, chunk.isEmpty = true
  | _ => False

end Value

/-! ## Lawful writers -/

section Lawful

variable {W : Type} [Writer W] {storage : Storage W}
variable (lawful : LawfulWriter W storage)
include lawful

theorem writeU64_puts {x : Nat} (bounded : x < 2 ^ 64) :
    storage.Puts (writeU64 x) (vleBytes x) := by
  unfold writeU64
  rw [← length_vleBytes bounded]
  exact lawful.withSlot (vleBytes_ne_nil bounded)

theorem SeqNum.write_puts (seqNum : SeqNum) :
    storage.Puts seqNum.write seqNum.bytes :=
  writeU64_puts lawful seqNum.get_lt_u64

theorem writeSlice_puts {x : List UInt8} (bounded : x.length < 2 ^ 64) :
    storage.Puts (writeSlice x) (encodeSlice x) := by
  apply (writeU64_puts lawful bounded).seq
  split
  · rename_i empty
    rw [empty]
    exact Storage.Puts.of_pure
  · rename_i nonempty
    exact lawful.writeExact nonempty

theorem Chunk.write_puts {chunk : Chunk} (bounded : chunk.len < 2 ^ 64)
    (nonempty : chunk.isEmpty = false) :
    storage.Puts chunk.write (encodeSlice chunk.asSlice) := by
  rw [encodeSlice, chunk.length_asSlice]
  exact (writeU64_puts lawful bounded).seq (lawful.writeChunk nonempty)

theorem Bytes.writeChunks_puts {chunks : List Chunk}
    (nonempty : ∀ chunk ∈ chunks, chunk.isEmpty = false) :
    storage.Puts (writeChunks chunks) (contents chunks) := by
  induction chunks with
  | nil => exact Storage.Puts.of_pure
  | cons slice rest hypothesis =>
      rw [List.forall_mem_cons] at nonempty
      exact (lawful.writeChunk nonempty.1).seq (hypothesis nonempty.2)

theorem Bytes.write_puts {bytes : Bytes} (bounded : bytes.len < 2 ^ 64)
    (nonempty : ∀ chunk ∈ bytes.chunks, chunk.isEmpty = false) :
    storage.Puts bytes.write bytes.encoded :=
  (writeU64_puts lawful bounded).seq (writeChunks_puts lawful nonempty)

theorem MessageHeader.write_puts (message : MessageHeader) :
    storage.Puts message.write message.bytes :=
  (lawful.writeU8 message.header).seq (message.seqNum.write_puts lawful)

theorem FrameHeader.write_puts (frame : FrameHeader) :
    storage.Puts frame.write frame.bytes :=
  lawful.writeU8 frame.header

theorem FragmentHeader.write_puts (fragment : FragmentHeader) :
    storage.Puts fragment.write fragment.bytes :=
  (lawful.writeU8 fragment.header).seq (fragment.fragId.write_puts lawful)

theorem MessageBody.write_puts (body : MessageBody) :
    storage.Puts body.write body.bytes := by
  cases body with
  | frame frame => exact frame.write_puts lawful
  | fragment fragment => exact fragment.write_puts lawful

theorem Message.write_puts (message : Message) :
    storage.Puts message.write message.bytes :=
  (message.header.write_puts lawful).seq (message.body.write_puts lawful)

/-- A value without an empty chunk appends its bytes. -/
theorem Value.write_puts {value : Value} (sized : value.Sized)
    (solid : ¬ value.HoldsEmptyChunk) :
    storage.Puts value.write value.encoded := by
  cases value with
  | u8 x => exact lawful.writeU8 x
  | u16 x =>
      exact writeU64_puts lawful (Nat.lt_trans x.toNat_lt (by decide))
  | u32 x =>
      exact writeU64_puts lawful (Nat.lt_trans x.toNat_lt (by decide))
  | u64 x => exact writeU64_puts lawful x.toNat_lt
  | seqNum x => exact x.write_puts lawful
  | array x size =>
      apply lawful.writeExact
      rintro rfl
      exact absurd size.1 (by decide)
  | slice x => exact writeSlice_puts lawful sized
  | string x => exact writeSlice_puts lawful sized
  | chunk x =>
      exact Chunk.write_puts lawful sized (Bool.eq_false_iff.2 solid)
  | bytes x =>
      apply Bytes.write_puts lawful sized
      intro chunk member
      apply Bool.eq_false_iff.2
      intro empty
      exact solid ⟨chunk, member, empty⟩
  | messageHeader x => exact x.write_puts lawful
  | frameHeader x => exact x.write_puts lawful
  | fragmentHeader x => exact x.write_puts lawful
  | messageBody x => exact x.write_puts lawful
  | message x => exact x.write_puts lawful

end Lawful

/-! ## The three buffers -/

/--
An encoder appends the same bytes to every vector, to every boxed buffer
with enough room and to every byte string.
-/
structure Encodes (program : (W : Type) → [Writer W] → Cursor W Unit)
    (bytes : List UInt8) : Prop where
  vec (vec : Vec) :
    ∃ after, program Vec vec = .ok () after ∧
      after.data = vec.data ++ bytes
  boxBuf (buf : BoxBuf) (room : bytes.length ≤ buf.remaining) :
    ∃ after, program BoxBuf buf = .ok () after ∧
      after.asSlice = buf.asSlice ++ bytes
  byteString (target : Bytes) :
    ∃ after, program BytesWriter target.writer = .ok () after ∧
      after.drop.toVec = target.toVec ++ bytes

/-- An encoder that appends to every lawful writer encodes. -/
theorem encodes_of_puts
    {program : (W : Type) → [Writer W] → Cursor W Unit}
    {bytes : List UInt8}
    (puts : ∀ {W : Type} [Writer W] {storage : Storage W},
      LawfulWriter W storage → storage.Puts (program W) bytes) :
    Encodes program bytes where
  vec vec := by
    rcases puts Vec.lawful vec 0 trivial with ⟨after, ran, content, _⟩
    exact ⟨after, ran, content⟩
  boxBuf buf room := by
    rcases puts BoxBuf.lawful buf 0 room with ⟨after, ran, content, _⟩
    exact ⟨after, ran, content⟩
  byteString target := by
    rcases puts BytesWriter.lawful target.writer 0 trivial with
      ⟨after, ran, content, _⟩
    refine ⟨after, ran, content.trans ?_⟩
    change target.writer.drop.toVec ++ bytes = _
    rw [BytesWriter.toVec_drop]
    exact congrArg (· ++ bytes) (List.append_nil _)

/-! ## Empty chunks -/

/-- A vector refuses an empty chunk. -/
theorem Vec.writeChunk_empty {chunk : Chunk} (empty : chunk.isEmpty = true)
    (vec : Vec) : Writer.writeChunk chunk vec = .err vec := by
  change writeExact chunk.asSlice vec = _
  rw [writeExact, write, if_pos ((Bytes.isEmpty_iff chunk).1 empty)]
  rfl

/-- Chunks one of which is empty cannot all be written to a vector. -/
theorem Vec.writeChunks_empty {chunks : List Chunk}
    (empty : ∃ chunk ∈ chunks, chunk.isEmpty = true) (vec : Vec) :
    ∃ after, Bytes.writeChunks chunks vec = .err after := by
  induction chunks generalizing vec with
  | nil => simp at empty
  | cons slice rest hypothesis =>
      cases here : slice.isEmpty with
      | true =>
          exact ⟨vec, Cursor.bind_err (Vec.writeChunk_empty here vec)⟩
      | false =>
          have later : ∃ chunk ∈ rest, chunk.isEmpty = true := by
            simpa [here] using empty
          rcases Vec.lawful.writeChunk here vec 0 trivial with
            ⟨middle, ran, _⟩
          rcases hypothesis later middle with ⟨after, failed⟩
          refine ⟨after, ?_⟩
          rw [Bytes.writeChunks, Cursor.bind_ok ran, failed]

/-- A value that holds an empty chunk cannot be written to a vector. -/
theorem Value.write_empty {value : Value} (sized : value.Sized)
    (empty : value.HoldsEmptyChunk) (vec : Vec) :
    ∃ after, value.write vec = .err after := by
  cases value with
  | chunk x =>
      rcases writeU64_puts Vec.lawful sized vec 0 trivial with
        ⟨middle, ran, _⟩
      refine ⟨middle, ?_⟩
      rw [write, Chunk.write, Cursor.bind_ok ran,
        Vec.writeChunk_empty empty middle]
  | bytes x =>
      rcases writeU64_puts Vec.lawful sized vec 0 trivial with
        ⟨middle, ran, _⟩
      rcases Vec.writeChunks_empty empty middle with ⟨after, failed⟩
      refine ⟨after, ?_⟩
      rw [write, Bytes.write, Cursor.bind_ok ran, failed]
  | _ => exact empty.elim

/--
A value encodes to the same bytes in every buffer exactly when it holds no
empty chunk.
-/
theorem Value.encodes_iff (value : Value) (sized : value.Sized) :
    (∃ bytes, Encodes (fun _ => value.write) bytes) ↔
      ¬ value.HoldsEmptyChunk := by
  constructor
  · rintro ⟨bytes, encodes⟩ empty
    rcases encodes.vec ⟨[]⟩ with ⟨after, ran, _⟩
    rcases value.write_empty sized empty ⟨[]⟩ with ⟨_, failed⟩
    rw [failed] at ran
    cases ran
  · intro solid
    exact ⟨value.encoded,
      encodes_of_puts fun lawful => Value.write_puts lawful sized solid⟩

/-- A string encodes to the same bytes in every buffer. -/
theorem Value.encodes_iff_string :
    (∃ bytes, Encodes (fun _ => (Value.string "thubo").write) bytes) ↔
      ¬ (Value.string "thubo").HoldsEmptyChunk :=
  Value.encodes_iff (.string "thubo") (by
    change "thubo".toUTF8.data.toList.length < 2 ^ 64
    decide)

/--
An empty chunk is written to a boxed buffer and to a byte string as the
length zero, and a vector refuses it after the length.
-/
theorem Value.empty_chunk_refused :
    (Value.chunk (.ofBuf [])).Sized ∧
      (Value.chunk (.ofBuf [])).write (Vec.mk []) = .err ⟨[0]⟩ ∧
      (∃ after, (Value.chunk (.ofBuf [])).write (BoxBuf.withCapacity 1) =
        .ok () after ∧ after.asSlice = [0]) ∧
      (∃ after, (Value.chunk (.ofBuf [])).write Bytes.new.writer =
        .ok () after ∧ after.drop.toVec = [0]) ∧
      ¬ ∃ bytes, Encodes (fun _ => (Value.chunk (.ofBuf [])).write)
        bytes := by
  refine ⟨Nat.two_pow_pos 64, rfl, ⟨_, rfl, rfl⟩, ⟨_, rfl, rfl⟩, ?_⟩
  rintro ⟨bytes, encodes⟩
  rcases encodes.vec ⟨[]⟩ with ⟨after, ran, _⟩
  cases ran

end Thubo
