import Thubo.Buffers.Bytes
import Thubo.Buffers.BoxBuf

/-!
# Writers without a bound

A vector and a byte string can be written to without a bound.  The writer of
a byte string collects what is written in a vector and adds it as a chunk
when a chunk is appended or when the writer is dropped.  A vector refuses to
write nothing.

The last section states what an encoder relies on in a writer.
-/

namespace Thubo

/-! ## Vectors -/

/-- A `Vec<u8>`. -/
structure Vec where
  data : List UInt8
deriving DecidableEq, Repr

namespace Vec

def len (vec : Vec) : Nat :=
  vec.data.length

/-- Append to the vector. -/
def extendFromSlice (vec : Vec) (bytes : List UInt8) : Vec :=
  ⟨vec.data ++ bytes⟩

/-- Write the bytes, of which there must be some. -/
def write (bytes : List UInt8) : Cursor Vec Unit :=
  if bytes = [] then
    Cursor.fail
  else do
    let vec ← Cursor.get
    Cursor.set (vec.extendFromSlice bytes)

def writeExact (bytes : List UInt8) : Cursor Vec Unit :=
  write bytes

def writeU8 (byte : UInt8) : Cursor Vec Unit := do
  let vec ← Cursor.get
  Cursor.set (vec.extendFromSlice [byte])

/--
Reserve `len` bytes and hand them to a closure.  A closure that writes past
its slot breaks the contract of the call.
-/
def withSlot (len : Nat) (written : List UInt8) : Cursor Vec Unit := do
  let vec ← Cursor.get
  if written.length ≤ len then
    Cursor.set (vec.extendFromSlice written)
    if written = [] then
      Cursor.fail
    else
      return ()
  else
    Cursor.lift (.error .bounds)

instance : Writer Vec where
  remaining _ := usizeMax
  writeExact := writeExact
  writeU8 := writeU8
  withSlot := withSlot

end Vec

/-! ## Byte strings -/

/-- The vector a writer fills and the start of its next snapshot. -/
structure ChunkWriter where
  inner : Vec
  start : Nat
  start_le : start ≤ inner.len
deriving DecidableEq, Repr

namespace ChunkWriter

def new : ChunkWriter :=
  ⟨⟨[]⟩, 0, Nat.le_refl _⟩

/-- What has been written since the last snapshot. -/
def snapshot (writer : ChunkWriter) : Chunk × ChunkWriter :=
  (⟨writer.inner.data, writer.start, writer.inner.len, writer.start_le,
      Nat.le_refl _⟩,
    ⟨writer.inner, writer.inner.len, Nat.le_refl _⟩)

/-- The writer after more bytes have been written to its vector. -/
def append (writer : ChunkWriter) (bytes : List UInt8) : ChunkWriter where
  inner := writer.inner.extendFromSlice bytes
  start := writer.start
  start_le := by
    have start_le := writer.start_le
    simp only [Vec.len, Vec.extendFromSlice, List.length_append] at *
    omega

end ChunkWriter

/-- A writer that appends to a byte string. -/
structure BytesWriter where
  inner : Bytes
  writer : ChunkWriter
deriving DecidableEq, Repr

/-- The writer of a byte string. -/
def Bytes.writer (bytes : Bytes) : BytesWriter :=
  ⟨bytes, .new⟩

namespace BytesWriter

/-- Write to the vector. -/
def writeExact (bytes : List UInt8) : Cursor BytesWriter Unit :=
  if bytes = [] then
    Cursor.fail
  else do
    let state ← Cursor.get
    Cursor.set { state with writer := state.writer.append bytes }

/-- Add what has been written as a chunk. -/
def flush (state : BytesWriter) : BytesWriter :=
  let (written, writer) := state.writer.snapshot
  if written.isEmpty then
    { state with writer := writer }
  else
    ⟨state.inner.push written, writer⟩

/-- Append a chunk without copying it. -/
def writeChunk (slice : Chunk) : Cursor BytesWriter Unit := do
  let state ← Cursor.get
  let state := state.flush
  if slice.isEmpty then
    Cursor.set state
  else
    Cursor.set { state with inner := state.inner.push slice }

/-- Hand a slot of the vector to a closure. -/
def withSlot (len : Nat) (written : List UInt8) :
    Cursor BytesWriter Unit := do
  let state ← Cursor.get
  if written.length ≤ len then
    Cursor.set { state with writer := state.writer.append written }
    if written = [] then
      Cursor.fail
    else
      return ()
  else
    Cursor.lift (.error .bounds)

instance : Writer BytesWriter where
  remaining _ := usizeMax
  writeExact := writeExact
  writeChunk := writeChunk
  withSlot := withSlot

/-- The byte string after the writer has been dropped. -/
def drop (state : BytesWriter) : Bytes :=
  state.flush.inner

theorem asSlice_snapshot (writer : ChunkWriter) :
    writer.snapshot.1.asSlice = writer.inner.data.drop writer.start := by
  change (writer.inner.data.take writer.inner.data.length).drop
    writer.start = _
  rw [List.take_length]

theorem toVec_drop (state : BytesWriter) :
    state.drop.toVec = state.inner.toVec ++
      state.writer.inner.data.drop state.writer.start := by
  unfold drop flush
  rw [← asSlice_snapshot]
  dsimp only
  split
  · rename_i empty
    rw [(Bytes.isEmpty_iff _).1 empty, List.append_nil]
  · exact Bytes.toVec_push _ _

@[simp]
theorem toVec_drop_append (inner : Bytes) (writer : ChunkWriter)
    (bytes : List UInt8) :
    (drop ⟨inner, writer.append bytes⟩).toVec =
      (drop ⟨inner, writer⟩).toVec ++ bytes := by
  have start_le := writer.start_le
  rw [toVec_drop, toVec_drop, List.append_assoc]
  congr 1
  exact List.drop_append_of_le_length start_le

/-- Flushing leaves nothing for the next snapshot. -/
theorem flush_nothing (state : BytesWriter) :
    state.flush.writer.inner.data.drop state.flush.writer.start = [] := by
  unfold flush
  dsimp only
  split <;> exact List.drop_length

/-- Flushing does not change what the writer leaves behind. -/
theorem toVec_drop_flush (state : BytesWriter) :
    state.flush.drop.toVec = state.drop.toVec := by
  rw [toVec_drop, flush_nothing, List.append_nil]
  rfl

end BytesWriter

/-! ## What an encoder relies on -/

/-- What has been written to a writer, and whether it has room for more. -/
structure Storage (W : Type) where
  content : W → List UInt8
  room : W → Nat → Prop

namespace Storage

variable {W : Type} {storage : Storage W}

/-- The program appends `bytes` wherever there is room for them. -/
def Puts (storage : Storage W) (program : Cursor W Unit)
    (bytes : List UInt8) : Prop :=
  ∀ state more, storage.room state (bytes.length + more) →
    ∃ after, program state = .ok () after ∧
      storage.content after = storage.content state ++ bytes ∧
      storage.room after more

theorem Puts.of_pure : storage.Puts (pure ()) [] := by
  intro state more enough
  rw [List.length_nil, Nat.zero_add] at enough
  exact ⟨state, rfl, (List.append_nil _).symm, enough⟩

/-- Programs in sequence append their bytes in sequence. -/
theorem Puts.seq {first second : Cursor W Unit} {front back : List UInt8}
    (putsFirst : storage.Puts first front)
    (putsSecond : storage.Puts second back) :
    storage.Puts (first >>= fun _ => second) (front ++ back) := by
  intro state more enough
  rw [List.length_append, Nat.add_assoc] at enough
  rcases putsFirst state _ enough with ⟨middle, ran, content, room⟩
  rcases putsSecond middle more room with ⟨after, ran', content', room'⟩
  refine ⟨after, ?_, ?_, room'⟩
  · rw [Cursor.bind_ok ran, ran']
  · rw [content', content, List.append_assoc]

end Storage

/--
A writer that appends what is written to its content while there is room.
What it does with nothing to write is left open.
-/
structure LawfulWriter (W : Type) [Writer W] (storage : Storage W) :
    Prop where
  writeExact {bytes : List UInt8} (nonempty : bytes ≠ []) :
    storage.Puts (Writer.writeExact bytes) bytes
  writeU8 (byte : UInt8) : storage.Puts (Writer.writeU8 byte) [byte]
  writeChunk {slice : Chunk} (nonempty : slice.isEmpty = false) :
    storage.Puts (Writer.writeChunk slice) slice.asSlice
  withSlot {bytes : List UInt8} (nonempty : bytes ≠ []) :
    storage.Puts (Writer.withSlot bytes.length bytes) bytes

/-- A vector has room for everything. -/
def Vec.storage : Storage Vec :=
  ⟨Vec.data, fun _ _ => True⟩

theorem Vec.writeExact_puts {bytes : List UInt8} (nonempty : bytes ≠ []) :
    storage.Puts (writeExact bytes) bytes := by
  intro state more _
  refine ⟨state.extendFromSlice bytes, ?_, rfl, trivial⟩
  rw [writeExact, write, if_neg nonempty]
  rfl

theorem Vec.lawful : LawfulWriter Vec storage where
  writeExact := writeExact_puts
  writeU8 byte := by
    intro state more _
    exact ⟨state.extendFromSlice [byte], rfl, rfl, trivial⟩
  writeChunk {slice} nonempty := by
    apply writeExact_puts
    intro empty
    rw [(Bytes.isEmpty_iff slice).2 empty] at nonempty
    cases nonempty
  withSlot {bytes} nonempty := by
    intro state more _
    refine ⟨state.extendFromSlice bytes, ?_, rfl, trivial⟩
    change withSlot _ _ _ = _
    simp only [withSlot, Cursor.get_bind, Nat.le_refl, if_true,
      Cursor.set_bind, if_neg nonempty, Cursor.pure_apply]

/-- What a writer of a byte string leaves behind when it is dropped. -/
def BytesWriter.storage : Storage BytesWriter :=
  ⟨fun state => state.drop.toVec, fun _ _ => True⟩

theorem BytesWriter.writeExact_puts {bytes : List UInt8}
    (nonempty : bytes ≠ []) : storage.Puts (writeExact bytes) bytes := by
  intro state more _
  refine ⟨{ state with writer := state.writer.append bytes }, ?_,
    toVec_drop_append _ _ _, trivial⟩
  rw [writeExact, if_neg nonempty]
  rfl

theorem BytesWriter.lawful : LawfulWriter BytesWriter storage where
  writeExact := writeExact_puts
  writeU8 byte := writeExact_puts (List.cons_ne_nil byte [])
  writeChunk {slice} nonempty := by
    intro state more _
    refine ⟨{ state.flush with inner := state.flush.inner.push slice }, ?_,
      ?_, trivial⟩
    · change writeChunk slice state = _
      simp only [writeChunk, Cursor.get_bind, nonempty, Bool.false_eq_true,
        if_false]
      rfl
    · have nothing : state.flush.writer.inner.data.drop
          state.flush.writer.start = [] := flush_nothing state
      change (drop _).toVec = (drop _).toVec ++ _
      rw [toVec_drop, Bytes.toVec_push, ← toVec_drop_flush state,
        toVec_drop, nothing, List.append_nil, List.append_nil]
  withSlot {bytes} nonempty := by
    intro state more _
    refine ⟨{ state with writer := state.writer.append bytes }, ?_,
      toVec_drop_append _ _ _, trivial⟩
    change withSlot _ _ _ = _
    simp only [withSlot, Cursor.get_bind, Nat.le_refl, if_true,
      Cursor.set_bind, if_neg nonempty, Cursor.pure_apply]

/-- A boxed buffer has room for as much as remains. -/
def BoxBuf.storage : Storage BoxBuf :=
  ⟨BoxBuf.asSlice, fun buf count => count ≤ buf.remaining⟩

/-- A program that writes its bytes when they fit appends them. -/
theorem Writes.puts {program : Cursor BoxBuf Unit} {bytes : List UInt8}
    (writes : Writes program bytes) :
    BoxBuf.storage.Puts program bytes := by
  intro buf more enough
  change bytes.length + more ≤ buf.remaining at enough
  have room : bytes.length ≤ buf.remaining := by omega
  refine ⟨buf.append bytes room, (writes buf).1 room, rfl, ?_⟩
  change more ≤ (buf.append bytes room).remaining
  rw [buf.append_remaining]
  omega

theorem BoxBuf.lawful : LawfulWriter BoxBuf storage where
  writeExact _ := (Writes.writeExact _).puts
  writeU8 byte := (Writes.writeExact [byte]).puts
  writeChunk {slice} _ := (Writes.writeExact slice.asSlice).puts
  withSlot nonempty := (Writes.withSlot nonempty).puts

end Thubo
