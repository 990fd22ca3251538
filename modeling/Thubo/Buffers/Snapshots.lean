import Thubo.Buffers.Writers
import Thubo.Lib.Runs

/-!
# The vector behind a writer

A writer keeps its bytes in a vector and hands out ranges of it as chunks.
The chunks share the vector and do not copy it, so they keep their content
because the writer only appends behind them.  Here a chunk that the writer
has handed out is a range, and its content is read from the vector as it is.
-/

namespace Thubo

/-- A chunk of a byte string that is being written. -/
inductive Part where
  /-- A chunk with a buffer of its own. -/
  | own (chunk : Chunk)
  /-- A range of the vector of the writer. -/
  | range (start stop : Nat)
deriving DecidableEq, Repr

namespace Part

/-- The bytes of the part in the vector as it is. -/
def asSlice (vec : Vec) : Part → List UInt8
  | .own chunk => chunk.asSlice
  | .range start stop => (vec.data.take stop).drop start

/-- A range ends within the vector. -/
def Inside (vec : Vec) : Part → Prop
  | .own _ => True
  | .range _ stop => stop ≤ vec.len

/-- A range keeps its content when the vector grows. -/
theorem asSlice_extend {part : Part} {vec : Vec} (inside : part.Inside vec)
    (bytes : List UInt8) :
    part.asSlice (vec.extendFromSlice bytes) = part.asSlice vec := by
  cases part with
  | own chunk => rfl
  | range start stop =>
      rw [asSlice, asSlice, Vec.extendFromSlice,
        List.take_append_of_le_length inside]

theorem Inside.extend {part : Part} {vec : Vec} (inside : part.Inside vec)
    (bytes : List UInt8) : part.Inside (vec.extendFromSlice bytes) := by
  cases part with
  | own chunk => trivial
  | range start stop =>
      rw [Inside, Vec.len, Vec.extendFromSlice, List.length_append]
      exact Nat.le_add_right_of_le inside

end Part

/-- A writer whose chunks share its vector. -/
structure SharedWriter where
  inner : List Part
  vec : Vec
  /-- Where the next snapshot starts. -/
  start : Nat
deriving DecidableEq, Repr

/-- The writer of a byte string. -/
def Bytes.sharedWriter (bytes : Bytes) : SharedWriter :=
  ⟨bytes.chunks.map .own, ⟨[]⟩, 0⟩

namespace SharedWriter

/-- Run a program on the vector. -/
def onVec (program : Cursor Vec Unit) : Cursor SharedWriter Unit :=
  fun state =>
    match program state.vec with
    | .ok _ vec => .ok () { state with vec := vec }
    | .err vec => .err { state with vec := vec }
    | .fault fault => .fault fault

def write (bytes : List UInt8) : Cursor SharedWriter Unit :=
  onVec (Vec.write bytes)

def writeExact (bytes : List UInt8) : Cursor SharedWriter Unit :=
  write bytes

def writeU8 (byte : UInt8) : Cursor SharedWriter Unit :=
  writeExact [byte]

def withSlot (len : Nat) (written : List UInt8) :
    Cursor SharedWriter Unit :=
  onVec (Vec.withSlot len written)

/-- Add what has been written as a range of the vector. -/
def flush (state : SharedWriter) : SharedWriter :=
  let after := { state with start := state.vec.len }
  if state.start = state.vec.len then
    after
  else
    { after with
      inner := state.inner ++ [.range state.start state.vec.len] }

/-- Append a chunk without copying it. -/
def writeChunk (slice : Chunk) : Cursor SharedWriter Unit := do
  let state ← Cursor.get
  let state := state.flush
  if slice.isEmpty then
    Cursor.set state
  else
    Cursor.set { state with inner := state.inner ++ [.own slice] }

/-- The writer is dropped. -/
def drop (state : SharedWriter) : SharedWriter :=
  state.flush

/-- The contents of the chunks. -/
def slices (state : SharedWriter) : List (List UInt8) :=
  state.inner.map (Part.asSlice state.vec)

/-- The content, with what has not become a chunk yet. -/
def content (state : SharedWriter) : List UInt8 :=
  state.slices.flatten ++ state.vec.data.drop state.start

end SharedWriter

/-- A call of a writer. -/
inductive WriterCall where
  | write (bytes : List UInt8)
  /-- `io::Write::write`. -/
  | ioWrite (bytes : List UInt8)
  | writeExact (bytes : List UInt8)
  | writeU8 (byte : UInt8)
  /-- The closure writes some bytes of its slot. -/
  | withSlot (len : Nat) (written : List UInt8)
  | writeChunk (slice : Chunk)
deriving DecidableEq, Repr

namespace WriterCall

/-- The bytes that the call writes. -/
def bytes : WriterCall → List UInt8
  | .write bytes => bytes
  | .ioWrite bytes => bytes
  | .writeExact bytes => bytes
  | .writeU8 byte => [byte]
  | .withSlot _ written => written
  | .writeChunk slice => slice.asSlice

def run : WriterCall → Cursor SharedWriter Unit
  | .write bytes => SharedWriter.write bytes
  | .ioWrite bytes =>
      if bytes = [] then pure () else SharedWriter.write bytes
  | .writeExact bytes => SharedWriter.writeExact bytes
  | .writeU8 byte => SharedWriter.writeU8 byte
  | .withSlot len written => SharedWriter.withSlot len written
  | .writeChunk slice => SharedWriter.writeChunk slice

/-- A call, which may refuse to write nothing. -/
def step (state : SharedWriter) (call : WriterCall) :
    Option SharedWriter :=
  (call.run state).leaves

end WriterCall

/-! ## What a call does -/

namespace SharedWriter

variable {state after : SharedWriter}

/-- Every range ends where the next snapshot starts, or before. -/
structure Sound (state : SharedWriter) : Prop where
  start_le : state.start ≤ state.vec.len
  inside : ∀ part ∈ state.inner, part.Inside state.vec

/-- Bytes are appended to the vector. -/
def append (state : SharedWriter) (bytes : List UInt8) : SharedWriter :=
  { state with vec := state.vec.extendFromSlice bytes }

/-- The writer goes on: its chunks stay and the bytes come after them. -/
structure Grows (state : SharedWriter) (bytes : List UInt8)
    (after : SharedWriter) : Prop where
  sound : after.Sound
  kept : state.slices <+: after.slices
  content_eq : after.content = state.content ++ bytes

theorem Sound.grows_nothing (sound : state.Sound) : state.Grows [] state :=
  ⟨sound, List.prefix_refl _, (List.append_nil _).symm⟩

/-- The chunks keep their content when bytes are appended. -/
theorem Sound.append_slices (sound : state.Sound) (bytes : List UInt8) :
    (state.append bytes).slices = state.slices := by
  apply List.map_congr_left
  intro part member
  exact Part.asSlice_extend (sound.inside part member) bytes

theorem Sound.append (sound : state.Sound) (bytes : List UInt8) :
    state.Grows bytes (state.append bytes) := by
  have slices := sound.append_slices bytes
  refine ⟨⟨?_, ?_⟩, ?_, ?_⟩
  · change state.start ≤ (state.vec.data ++ bytes).length
    rw [List.length_append]
    exact Nat.le_add_right_of_le sound.start_le
  · exact fun part member => (sound.inside part member).extend bytes
  · simp only [slices, List.prefix_refl]
  · have start_le := sound.start_le
    rw [content, content, slices, List.append_assoc]
    congr 1
    exact List.drop_append_of_le_length start_le

/-- A flush turns what has been written into a chunk. -/
theorem Sound.flush (sound : state.Sound) :
    state.Grows [] state.flush ∧
      state.flush.vec.data.drop state.flush.start = [] := by
  have nothing : state.vec.data.drop state.vec.len = [] :=
    List.drop_length
  unfold SharedWriter.flush
  split
  · rename_i same
    refine ⟨⟨⟨Nat.le_refl _, sound.inside⟩, List.prefix_refl _, ?_⟩,
      nothing⟩
    rw [List.append_nil, content, content, ← same]
  · refine ⟨⟨⟨Nat.le_refl _, ?_⟩, ?_, ?_⟩, nothing⟩
    · intro part member
      rcases List.mem_append.1 member with old | new
      · exact sound.inside part old
      · rw [List.mem_singleton.1 new]
        exact Nat.le_refl _
    · rw [slices, slices, List.map_append]
      exact List.prefix_append _ _
    · rw [List.append_nil, content, content, nothing, List.append_nil,
        slices, List.map_append, List.flatten_append]
      congr 1
      change [(state.vec.data.take state.vec.data.length).drop
        state.start].flatten = _
      rw [List.take_length]
      simp

/-- A chunk is added after a flush. -/
theorem Sound.push (sound : state.Sound)
    (flushed : state.vec.data.drop state.start = []) (slice : Chunk) :
    state.Grows slice.asSlice
      { state with inner := state.inner ++ [.own slice] } := by
  refine ⟨⟨sound.start_le, ?_⟩, ?_, ?_⟩
  · intro part member
    rcases List.mem_append.1 member with old | new
    · exact sound.inside part old
    · rw [List.mem_singleton.1 new]
      trivial
  · rw [slices, slices, List.map_append]
    exact List.prefix_append _ _
  · rw [content, content, flushed, List.append_nil, List.append_nil, slices,
      List.map_append, List.flatten_append]
    congr 1
    simp [Part.asSlice]

theorem Grows.trans {middle : SharedWriter} {front back : List UInt8}
    (first : state.Grows front middle) (second : middle.Grows back after) :
    state.Grows (front ++ back) after where
  sound := second.sound
  kept := first.kept.trans second.kept
  content_eq := by
    rw [second.content_eq, first.content_eq, List.append_assoc]

/-- A write appends its bytes. -/
theorem write_grows (sound : state.Sound) {bytes : List UInt8}
    (ran : (write bytes state).leaves = some after) :
    state.Grows bytes after := by
  unfold write onVec Vec.write at ran
  by_cases empty : bytes = []
  · rw [if_pos empty] at ran
    cases ran
    rw [empty]
    exact sound.grows_nothing
  · rw [if_neg empty] at ran
    cases ran
    exact sound.append bytes

theorem writeU8_grows (sound : state.Sound) {byte : UInt8}
    (ran : (writeU8 byte state).leaves = some after) :
    state.Grows [byte] after :=
  write_grows sound ran

/-- A slot appends what the closure writes to it. -/
theorem withSlot_grows (sound : state.Sound) {len : Nat}
    {written : List UInt8}
    (ran : (withSlot len written state).leaves = some after) :
    state.Grows written after := by
  have appended := sound.append written
  unfold withSlot onVec Vec.withSlot at ran
  simp only [Cursor.get_bind] at ran
  by_cases fits : written.length ≤ len
  · by_cases empty : written = []
    · simp only [if_pos fits, Cursor.set_bind, if_pos empty] at ran
      cases ran
      exact appended
    · simp only [if_pos fits, Cursor.set_bind, if_neg empty] at ran
      cases ran
      exact appended
  · rw [if_neg fits] at ran
    cases ran

/-- An appended chunk comes after what has been written. -/
theorem writeChunk_grows (sound : state.Sound) {slice : Chunk}
    (ran : (writeChunk slice state).leaves = some after) :
    state.Grows slice.asSlice after := by
  rcases sound.flush with ⟨flushed, nothing⟩
  unfold writeChunk at ran
  simp only [Cursor.get_bind] at ran
  by_cases empty : slice.isEmpty = true
  · rw [if_pos empty] at ran
    cases ran
    rw [(Bytes.isEmpty_iff slice).1 empty]
    exact flushed
  · rw [if_neg empty] at ran
    cases ran
    exact flushed.trans (flushed.sound.push nothing slice)

/-- A call writes its bytes. -/
theorem step_grows (sound : state.Sound) {call : WriterCall}
    (stepped : call.step state = some after) :
    state.Grows call.bytes after := by
  cases call with
  | write bytes => exact write_grows sound stepped
  | writeExact bytes => exact write_grows sound stepped
  | writeU8 byte => exact writeU8_grows sound stepped
  | withSlot len written => exact withSlot_grows sound stepped
  | writeChunk slice => exact writeChunk_grows sound stepped
  | ioWrite bytes =>
      unfold WriterCall.step WriterCall.run at stepped
      by_cases empty : bytes = []
      · simp only [if_pos empty] at stepped
        cases stepped
        rw [WriterCall.bytes, empty]
        exact sound.grows_nothing
      · simp only [if_neg empty] at stepped
        exact write_grows sound stepped

/-! ## Every run -/

theorem run_grows (sound : state.Sound) {calls : List WriterCall}
    (ran : Runs.run WriterCall.step state calls = some after) :
    state.Grows (calls.flatMap WriterCall.bytes) after := by
  induction calls generalizing state with
  | nil =>
      cases ran
      exact sound.grows_nothing
  | cons call calls hypothesis =>
      rcases Runs.run_cons_cases ran with ⟨middle, stepped, later⟩
      have first := step_grows sound stepped
      exact first.trans (hypothesis first.sound later)

/-- Nothing is pending once the writer is dropped. -/
theorem Sound.drop (sound : state.Sound) :
    state.drop.slices.flatten = state.content ∧
      state.slices <+: state.drop.slices := by
  rcases sound.flush with ⟨flushed, nothing⟩
  have same := flushed.content_eq
  rw [List.append_nil, content, nothing, List.append_nil] at same
  exact ⟨same, flushed.kept⟩

end SharedWriter

namespace Bytes

variable (bytes : Bytes)

theorem sharedWriter_sound : bytes.sharedWriter.Sound := by
  refine ⟨Nat.le_refl _, ?_⟩
  intro part member
  rcases List.mem_map.1 member with ⟨chunk, _, rfl⟩
  trivial

theorem sharedWriter_content : bytes.sharedWriter.content = bytes.toVec := by
  rw [SharedWriter.content, SharedWriter.slices, sharedWriter,
    List.map_map]
  exact List.append_nil _

end Bytes

namespace SharedWriter

/--
Whatever is written, dropping the writer leaves the initial content and then
the written bytes in order, and every chunk that was there at any time in
between is still there with the content that it had.
-/
theorem written_of_run (bytes : Bytes) (calls : List WriterCall)
    (after : SharedWriter)
    (ran : Runs.run WriterCall.step bytes.sharedWriter calls = some after) :
    after.drop.slices.flatten =
        bytes.toVec ++ calls.flatMap WriterCall.bytes ∧
      ∀ front back middle, calls = front ++ back →
        Runs.run WriterCall.step bytes.sharedWriter front = some middle →
        middle.slices <+: after.slices ∧
          middle.slices <+: after.drop.slices := by
  have sound := bytes.sharedWriter_sound
  have grows := run_grows sound ran
  rcases grows.sound.drop with ⟨same, kept⟩
  constructor
  · rw [same, grows.content_eq, bytes.sharedWriter_content]
  · intro front back middle split ran_front
    rw [split, Runs.run_append ran_front] at ran
    have later := run_grows (run_grows sound ran_front).sound ran
    exact ⟨later.kept, later.kept.trans kept⟩

/-- A chunk between two writes, a slot and a refused write. -/
theorem written_of_run_mixed :
    ∃ after,
      Runs.run WriterCall.step (Bytes.single (.ofBuf [1])).sharedWriter
          [.write [2, 3], .writeChunk (.ofBuf [4]), .withSlot 4 [5],
            .write [], .writeU8 6] = some after ∧
        after.drop.slices.flatten = [1, 2, 3, 4, 5, 6] :=
  ⟨_, rfl, (written_of_run (.single (.ofBuf [1]))
    [.write [2, 3], .writeChunk (.ofBuf [4]), .withSlot 4 [5], .write [],
      .writeU8 6] _ rfl).1⟩

end SharedWriter

/-! ## A writer that copies -/

namespace WriterCall

/-- The call on a writer whose chunks hold copies of the vector. -/
def copied : WriterCall → Cursor BytesWriter Unit
  | .write bytes => BytesWriter.writeExact bytes
  | .ioWrite bytes =>
      if bytes = [] then pure () else BytesWriter.writeExact bytes
  | .writeExact bytes => BytesWriter.writeExact bytes
  | .writeU8 byte => BytesWriter.writeExact [byte]
  | .withSlot len written => BytesWriter.withSlot len written
  | .writeChunk slice => BytesWriter.writeChunk slice

def copiedStep (state : BytesWriter) (call : WriterCall) :
    Option BytesWriter :=
  (call.copied state).leaves

end WriterCall

/-- The chunks of one writer hold what the ranges of the other one name. -/
structure Copies (shared : SharedWriter) (writer : BytesWriter) : Prop where
  sound : shared.Sound
  vec_eq : shared.vec = writer.writer.inner
  start_eq : shared.start = writer.writer.start
  slices_eq : shared.slices = writer.inner.chunks.map Chunk.asSlice

namespace Copies

variable {shared : SharedWriter} {writer : BytesWriter}

theorem append (copies : Copies shared writer) (bytes : List UInt8) :
    Copies (shared.append bytes)
      { writer with writer := writer.writer.append bytes } where
  sound := (copies.sound.append bytes).sound
  vec_eq := by
    rw [SharedWriter.append, copies.vec_eq]
    rfl
  start_eq := copies.start_eq
  slices_eq := by
    rw [copies.sound.append_slices]
    exact copies.slices_eq

theorem push (copies : Copies shared writer) {slice : Chunk}
    (nonempty : slice.isEmpty = false) :
    Copies { shared with inner := shared.inner ++ [.own slice] }
      { writer with inner := writer.inner.push slice } where
  sound := by
    refine ⟨copies.sound.start_le, ?_⟩
    intro part member
    rcases List.mem_append.1 member with old | new
    · exact copies.sound.inside part old
    · rw [List.mem_singleton.1 new]
      trivial
  vec_eq := copies.vec_eq
  start_eq := copies.start_eq
  slices_eq := by
    rw [SharedWriter.slices, List.map_append, Bytes.push, nonempty,
      if_neg Bool.false_ne_true, List.map_append]
    congr 1
    exact copies.slices_eq

/-- Both writers flush the same bytes. -/
theorem flush (copies : Copies shared writer) :
    Copies shared.flush writer.flush := by
  have sound := copies.sound.flush.1.sound
  have bounds := writer.writer.start_le
  have vec_eq := copies.vec_eq
  have start_eq := copies.start_eq
  have slices_eq := copies.slices_eq
  have len_eq : writer.writer.snapshot.1.len =
      shared.vec.len - shared.start := by
    rw [vec_eq, start_eq]
    rfl
  unfold SharedWriter.flush at sound ⊢
  unfold BytesWriter.flush
  dsimp only at sound ⊢
  by_cases same : shared.start = shared.vec.len
  · have nothing : writer.writer.snapshot.1.isEmpty = true := by
      rw [Chunk.isEmpty, len_eq, same, Nat.sub_self]
      rfl
    rw [if_pos same] at sound ⊢
    rw [if_pos nothing]
    exact ⟨sound, vec_eq, congrArg Vec.len vec_eq, slices_eq⟩
  · have some_bytes : writer.writer.snapshot.1.isEmpty = false := by
      rw [vec_eq, start_eq] at same
      rw [Chunk.isEmpty, len_eq, vec_eq, start_eq]
      simp only [beq_eq_false_iff_ne]
      omega
    rw [if_neg same] at sound ⊢
    rw [some_bytes, if_neg Bool.false_ne_true]
    refine ⟨sound, vec_eq, congrArg Vec.len vec_eq, ?_⟩
    rw [SharedWriter.slices, List.map_append, Bytes.push, some_bytes,
      if_neg Bool.false_ne_true, List.map_append]
    congr 1
    change [(shared.vec.data.take shared.vec.len).drop shared.start] = _
    rw [vec_eq, start_eq]
    rfl

variable {after : SharedWriter}

theorem write (copies : Copies shared writer) {bytes : List UInt8}
    (ran : (SharedWriter.write bytes shared).leaves = some after) :
    ∃ copied, (BytesWriter.writeExact bytes writer).leaves = some copied ∧
      Copies after copied := by
  unfold SharedWriter.write SharedWriter.onVec Vec.write at ran
  unfold BytesWriter.writeExact
  by_cases empty : bytes = []
  · rw [if_pos empty] at ran ⊢
    cases ran
    exact ⟨writer, rfl, copies⟩
  · rw [if_neg empty] at ran ⊢
    cases ran
    exact ⟨_, rfl, copies.append bytes⟩

theorem withSlot (copies : Copies shared writer) {len : Nat}
    {written : List UInt8}
    (ran : (SharedWriter.withSlot len written shared).leaves = some after) :
    ∃ copied,
      (BytesWriter.withSlot len written writer).leaves = some copied ∧
      Copies after copied := by
  have appended := copies.append written
  unfold SharedWriter.withSlot SharedWriter.onVec Vec.withSlot at ran
  unfold BytesWriter.withSlot
  simp only [Cursor.get_bind] at ran ⊢
  by_cases fits : written.length ≤ len
  · by_cases empty : written = []
    · simp only [if_pos fits, Cursor.set_bind, if_pos empty] at ran ⊢
      cases ran
      exact ⟨_, rfl, appended⟩
    · simp only [if_pos fits, Cursor.set_bind, if_neg empty] at ran ⊢
      cases ran
      exact ⟨_, rfl, appended⟩
  · rw [if_neg fits] at ran
    cases ran

theorem writeChunk (copies : Copies shared writer) {slice : Chunk}
    (ran : (SharedWriter.writeChunk slice shared).leaves = some after) :
    ∃ copied,
      (BytesWriter.writeChunk slice writer).leaves = some copied ∧
      Copies after copied := by
  unfold SharedWriter.writeChunk at ran
  unfold BytesWriter.writeChunk
  simp only [Cursor.get_bind] at ran ⊢
  cases empty : slice.isEmpty with
  | true =>
      rw [empty, if_pos rfl] at ran
      cases ran
      exact ⟨_, rfl, copies.flush⟩
  | false =>
      rw [empty, if_neg Bool.false_ne_true] at ran
      cases ran
      exact ⟨_, rfl, copies.flush.push empty⟩

/-- A call does the same to both writers. -/
theorem step (copies : Copies shared writer) {call : WriterCall}
    (stepped : call.step shared = some after) :
    ∃ copied, call.copiedStep writer = some copied ∧
      Copies after copied := by
  cases call with
  | write bytes => exact copies.write stepped
  | writeExact bytes => exact copies.write stepped
  | writeU8 byte => exact copies.write stepped
  | withSlot len written => exact copies.withSlot stepped
  | writeChunk slice => exact copies.writeChunk stepped
  | ioWrite bytes =>
      unfold WriterCall.step WriterCall.run at stepped
      unfold WriterCall.copiedStep WriterCall.copied
      by_cases empty : bytes = []
      · simp only [if_pos empty] at stepped ⊢
        cases stepped
        exact ⟨writer, rfl, copies⟩
      · simp only [if_neg empty] at stepped ⊢
        exact copies.write stepped

theorem run (copies : Copies shared writer) {calls : List WriterCall}
    (ran : Runs.run WriterCall.step shared calls = some after) :
    ∃ copied, Runs.run WriterCall.copiedStep writer calls = some copied ∧
      Copies after copied := by
  induction calls generalizing shared writer with
  | nil =>
      cases ran
      exact ⟨writer, rfl, copies⟩
  | cons call calls hypothesis =>
      rcases Runs.run_cons_cases ran with ⟨middle, stepped, later⟩
      rcases copies.step stepped with ⟨copied, first, middle_copies⟩
      rcases hypothesis middle_copies later with ⟨final, rest, final_copies⟩
      exact ⟨final, (Runs.run_cons first calls).trans rest, final_copies⟩

end Copies

/-- A writer that copies leaves the same chunks behind. -/
theorem Bytes.copied_of_run (bytes : Bytes) {calls : List WriterCall}
    {after : SharedWriter}
    (ran : Runs.run WriterCall.step bytes.sharedWriter calls = some after) :
    ∃ copied,
      Runs.run WriterCall.copiedStep bytes.writer calls = some copied ∧
      after.drop.slices = copied.drop.chunks.map Chunk.asSlice := by
  have start : Copies bytes.sharedWriter bytes.writer :=
    ⟨bytes.sharedWriter_sound, rfl, rfl, by
      rw [SharedWriter.slices, sharedWriter, List.map_map]
      rfl⟩
  rcases start.run ran with ⟨copied, copied_ran, copies⟩
  exact ⟨copied, copied_ran, copies.flush.slices_eq⟩

end Thubo
