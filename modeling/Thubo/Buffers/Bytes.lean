import Thubo.Buffers.Chunk

/-!
# Bytes and their reader

A byte string is kept as a list of chunks.  The reader walks over them with a
cursor that names a slice and an offset into it.  Some of its steps index
without a check; the section on positions states the condition under which
those indices are in range, and every operation preserves it.
-/

namespace Thubo

/-! ## Readers -/

/-- Reading from a buffer. -/
class Reader (R : Type) where
  /-- The number of bytes left to read. -/
  remaining : R → Except Fault Nat
  /-- Read one byte. -/
  readU8 : Cursor R UInt8
  /-- Read `len` bytes and hand them over as chunks. -/
  readChunks (len : Nat) : Cursor R (List Chunk)
  /-- Read `len` bytes when they lie in one chunk. -/
  readChunkContiguous (len : Nat) : Cursor R Chunk

/-! ## Bytes -/

/-- A collection of non-contiguous chunks. -/
structure Bytes where
  chunks : List Chunk
deriving DecidableEq, Repr

/-- The bytes of a list of chunks, in order. -/
def contents (chunks : List Chunk) : List UInt8 :=
  chunks.flatMap Chunk.asSlice

@[simp]
theorem contents_nil : contents [] = [] :=
  rfl

@[simp]
theorem contents_cons (slice : Chunk) (rest : List Chunk) :
    contents (slice :: rest) = slice.asSlice ++ contents rest :=
  rfl

@[simp]
theorem contents_append (left right : List Chunk) :
    contents (left ++ right) = contents left ++ contents right :=
  List.flatMap_append

namespace Bytes

def new : Bytes :=
  ⟨[]⟩

/-- A single chunk. -/
def single (chunk : Chunk) : Bytes :=
  ⟨[chunk]⟩

/--
The total number of bytes across all chunks.  The sum is unbounded: it is the
code's as long as it fits a `usize` (`BytesReader.sumLens_len`).
-/
def len (bytes : Bytes) : Nat :=
  (bytes.chunks.map Chunk.len).sum

def isEmpty (bytes : Bytes) : Bool :=
  bytes.chunks.isEmpty

def clear (_ : Bytes) : Bytes :=
  new

/-- Append a chunk; an empty chunk is ignored. -/
def push (bytes : Bytes) (chunk : Chunk) : Bytes :=
  if chunk.isEmpty then
    bytes
  else
    ⟨bytes.chunks ++ [chunk]⟩

/-- Append every chunk of another collection. -/
def extend (bytes : Bytes) (other : Bytes) : Bytes :=
  other.chunks.foldl push bytes

/-- All bytes in one contiguous list. -/
def toVec (bytes : Bytes) : List UInt8 :=
  contents bytes.chunks

/-- No chunk of the collection is empty. -/
def NoEmptyChunk (bytes : Bytes) : Prop :=
  ∀ chunk ∈ bytes.chunks, 0 < chunk.len

theorem length_contents (chunks : List Chunk) :
    (contents chunks).length = (chunks.map Chunk.len).sum := by
  induction chunks with
  | nil => rfl
  | cons slice rest hypothesis => simp [hypothesis]

theorem length_toVec (bytes : Bytes) : bytes.toVec.length = bytes.len :=
  length_contents bytes.chunks

@[simp]
theorem toVec_new : new.toVec = [] :=
  rfl

@[simp]
theorem toVec_single (chunk : Chunk) :
    (single chunk).toVec = chunk.asSlice := by
  simp [single, toVec]

/-- A chunk counts as empty exactly when it holds no byte. -/
theorem isEmpty_iff (chunk : Chunk) :
    chunk.isEmpty = true ↔ chunk.asSlice = [] := by
  rw [← List.length_eq_zero_iff, Chunk.length_asSlice]
  simp [Chunk.isEmpty]

@[simp]
theorem toVec_push (bytes : Bytes) (chunk : Chunk) :
    (bytes.push chunk).toVec = bytes.toVec ++ chunk.asSlice := by
  unfold push
  split
  · rename_i empty
    rw [(isEmpty_iff chunk).1 empty, List.append_nil]
  · simp [toVec]

/-- Pushing chunks one by one appends their bytes. -/
theorem toVec_foldl_push (chunks : List Chunk) (bytes : Bytes) :
    (chunks.foldl push bytes).toVec = bytes.toVec ++ contents chunks := by
  induction chunks generalizing bytes with
  | nil => simp
  | cons slice rest hypothesis =>
      simp [hypothesis, List.append_assoc]

@[simp]
theorem toVec_extend (bytes other : Bytes) :
    (bytes.extend other).toVec = bytes.toVec ++ other.toVec :=
  toVec_foldl_push other.chunks bytes

theorem noEmptyChunk_new : new.NoEmptyChunk := by
  intro chunk member
  cases member

theorem noEmptyChunk_single {chunk : Chunk} (nonempty : 0 < chunk.len) :
    (single chunk).NoEmptyChunk := by
  intro other member
  cases List.mem_singleton.1 member
  exact nonempty

theorem NoEmptyChunk.push {bytes : Bytes} (solid : bytes.NoEmptyChunk)
    (chunk : Chunk) : (bytes.push chunk).NoEmptyChunk := by
  unfold Bytes.push
  split
  · exact solid
  · rename_i nonempty
    intro other member
    rcases List.mem_append.1 member with old | new
    · exact solid other old
    · cases List.mem_singleton.1 new
      simp [Chunk.isEmpty] at nonempty
      omega

theorem NoEmptyChunk.foldl_push {bytes : Bytes} (solid : bytes.NoEmptyChunk)
    (chunks : List Chunk) :
    (chunks.foldl Bytes.push bytes).NoEmptyChunk := by
  induction chunks generalizing bytes with
  | nil => exact solid
  | cons slice rest hypothesis => exact hypothesis (solid.push slice)

theorem NoEmptyChunk.extend {bytes : Bytes} (solid : bytes.NoEmptyChunk)
    (other : Bytes) : (bytes.extend other).NoEmptyChunk :=
  solid.foldl_push other.chunks

end Bytes

/-! ## The reader -/

/-- A position in a collection of chunks. -/
structure BytesPos where
  slice : Nat
  byte : Nat
deriving DecidableEq, Repr

def BytesPos.zero : BytesPos :=
  ⟨0, 0⟩

/-- A reader over a collection of chunks. -/
structure BytesReader where
  inner : Bytes
  cursor : BytesPos
deriving DecidableEq, Repr

/-- The reader at the first byte. -/
def Bytes.reader (bytes : Bytes) : BytesReader :=
  ⟨bytes, .zero⟩

namespace BytesSliceIterator

/--
One call of `next` with bytes still to be read: the view it yields, the
position it leaves and the number of bytes that remain.
-/
def next (slice : Chunk) (cursor : BytesPos) (remaining : Nat) :
    Except Fault (Option Chunk × BytesPos × Nat) := do
  let start := cursor.byte
  -- the unchecked range `start..`
  let len ← if start ≤ slice.len then .ok (slice.len - start)
    else .error .bounds
  if remaining < len then
    let stop := start + remaining
    let view ← slice.view (.included start) (.excluded stop)
    return (view, { cursor with byte := stop }, 0)
  else if remaining = len then
    let stop := start + remaining
    let view ← slice.view (.included start) (.excluded stop)
    return (view, ⟨cursor.slice + 1, 0⟩, 0)
  else
    let stop := start + len
    let view ← slice.view (.included start) (.excluded stop)
    return (view, ⟨cursor.slice + 1, 0⟩, remaining - len)

/--
The loop over the iterator.  The list holds the slices from the cursor on;
reaching past it is the unchecked index of `next` out of range.
-/
def run : List Chunk → BytesPos → Nat →
    Except Fault (List Chunk × BytesPos)
  | _, cursor, 0 => .ok ([], cursor)
  | [], _, _ + 1 => .error .bounds
  | slice :: rest, cursor, remaining + 1 => do
      let (item, cursor, remaining) ← next slice cursor (remaining + 1)
      match item with
      | none => return ([], cursor)
      | some chunk =>
          let (chunks, cursor) ← run rest cursor remaining
          return (chunk :: chunks, cursor)

end BytesSliceIterator

namespace BytesReader

/-- Save the position. -/
def mark (reader : BytesReader) : BytesPos :=
  reader.cursor

/-- Return to a saved position, unless it lies outside the chunks. -/
def seek (reader : BytesReader) (mark : BytesPos) : Bool × BytesReader :=
  match reader.inner.chunks[mark.slice]? with
  | some slice =>
      if mark.byte ≤ slice.len then
        (true, { reader with cursor := mark })
      else
        (false, reader)
  | none => (false, reader)

/-- The slices from the cursor on. -/
def unread (reader : BytesReader) : List Chunk :=
  reader.inner.chunks.drop reader.cursor.slice

/--
The number of bytes left; the range of slices is not checked.  The sum is
unbounded, like that of `Bytes.len` (`remaining_checked`).
-/
def remaining (reader : BytesReader) : Except Fault Nat :=
  if reader.cursor.slice ≤ reader.inner.chunks.length then
    checkedSub (reader.unread.map Chunk.len).sum reader.cursor.byte
  else
    .error .bounds

/-- Read one byte. -/
def readU8 : Cursor BytesReader UInt8 := do
  let reader ← Cursor.get
  let slice ← Cursor.ofOption reader.inner.chunks[reader.cursor.slice]?
  let byte ← Cursor.ofOption slice.asSlice[reader.cursor.byte]?
  if reader.cursor.byte + 1 = slice.len then
    Cursor.set { reader with cursor := ⟨reader.cursor.slice + 1, 0⟩ }
  else
    Cursor.set
      { reader with
        cursor := ⟨reader.cursor.slice, reader.cursor.byte + 1⟩ }
  return byte

/-- Read `len` bytes and hand them over as chunks. -/
def readChunks (len : Nat) : Cursor BytesReader (List Chunk) := do
  let reader ← Cursor.get
  let remaining ← Cursor.lift reader.remaining
  if remaining < len then
    Cursor.fail
  else
    let (chunks, cursor) ←
      Cursor.lift (BytesSliceIterator.run reader.unread reader.cursor len)
    Cursor.set { reader with cursor := cursor }
    return chunks

/-- Read `len` bytes when they lie in the slice under the cursor. -/
def readChunkContiguous (len : Nat) : Cursor BytesReader Chunk := do
  let reader ← Cursor.get
  let slice ← Cursor.ofOption reader.inner.chunks[reader.cursor.slice]?
  let left ← Cursor.lift (checkedSub slice.len reader.cursor.byte)
  if left < len then
    Cursor.fail
  else if left = len then
    let view ←
      Cursor.lift (slice.view (.included reader.cursor.byte) .unbounded)
    let chunk ← Cursor.ofOption view
    Cursor.set { reader with cursor := ⟨reader.cursor.slice + 1, 0⟩ }
    return chunk
  else
    let start := reader.cursor.byte
    let stop := start + len
    let view ←
      Cursor.lift (slice.view (.included start) (.excluded stop))
    let chunk ← Cursor.ofOption view
    Cursor.set { reader with cursor := ⟨reader.cursor.slice, stop⟩ }
    return chunk

/--
The loop of `skip`, over the slices from the cursor on.  It fails when it
runs out of slices and leaves the cursor where the last slice ended.
-/
def skipSlices : List Chunk → BytesPos → Nat →
    Except Fault (Bool × BytesPos)
  | _, cursor, 0 => .ok (true, cursor)
  | [], cursor, _ + 1 => .ok (false, cursor)
  | slice :: rest, cursor, offset + 1 => do
      let remains ← checkedSub slice.len cursor.byte
      let advance := min (offset + 1) remains
      if cursor.byte + advance = slice.len then
        skipSlices rest ⟨cursor.slice + 1, 0⟩ (offset + 1 - advance)
      else
        return (true, ⟨cursor.slice, cursor.byte + advance⟩)

/-- Skip forward by `offset` bytes. -/
def skip (offset : Nat) : Cursor BytesReader Unit := do
  let reader ← Cursor.get
  let (skipped, cursor) ←
    Cursor.lift (skipSlices reader.unread reader.cursor offset)
  Cursor.set { reader with cursor := cursor }
  if skipped then
    return ()
  else
    Cursor.fail

instance : Reader BytesReader where
  remaining := remaining
  readU8 := readU8
  readChunks := readChunks
  readChunkContiguous := readChunkContiguous

end BytesReader

/-- A view of a range of bytes, or nothing when it is out of bounds. -/
def Bytes.view (bytes : Bytes) (lower upper : Bound) :
    Except Fault (Option Bytes) := do
  let startDelta ← lower.startDelta
  let endDelta ← upper.endDelta bytes.len
  match BytesReader.skip startDelta bytes.reader with
  | .fault fault => .error fault
  | .err _ => return none
  | .ok _ reader =>
      let len ← checkedSub endDelta startDelta
      match BytesReader.readChunks len reader with
      | .fault fault => .error fault
      | .err _ => return none
      | .ok chunks _ => return some ⟨chunks⟩

/-! ## Positions -/

namespace BytesReader

/-- An offset into the first of the unread slices, or zero past the last. -/
def Within : List Chunk → Nat → Prop
  | [], byte => byte = 0
  | slice :: _, byte => byte ≤ slice.len

/-- An offset of an unread byte of the first slice, or zero past the last. -/
def StrictlyWithin : List Chunk → Nat → Prop
  | [], byte => byte = 0
  | slice :: _, byte => byte < slice.len

theorem StrictlyWithin.within {slices : List Chunk} {byte : Nat}
    (strict : StrictlyWithin slices byte) : Within slices byte := by
  cases slices with
  | nil => exact strict
  | cons slice rest => exact Nat.le_of_lt strict

/-- The start of a list of nonempty slices is a strict position. -/
theorem strictlyWithin_zero {slices : List Chunk}
    (solid : ∀ slice ∈ slices, 0 < slice.len) :
    StrictlyWithin slices 0 := by
  cases slices with
  | nil => rfl
  | cons slice rest => exact solid slice (List.mem_cons_self ..)

theorem within_zero (slices : List Chunk) : Within slices 0 := by
  cases slices with
  | nil => rfl
  | cons slice rest => exact Nat.zero_le _

theorem Within.le_length {slices : List Chunk} {byte : Nat}
    (within : Within slices byte) : byte ≤ (contents slices).length := by
  cases slices with
  | nil => exact Nat.le_of_eq within
  | cons slice rest =>
      have bounded : byte ≤ slice.len := within
      simp only [contents_cons, List.length_append, Chunk.length_asSlice]
      omega

/-- The bytes left to read. -/
def rest (reader : BytesReader) : List UInt8 :=
  (contents reader.unread).drop reader.cursor.byte

/-- The cursor is inside the chunks, possibly at the end of a slice. -/
structure Placed (reader : BytesReader) : Prop where
  slice_le : reader.cursor.slice ≤ reader.inner.chunks.length
  within : Within reader.unread reader.cursor.byte

/-- The cursor is at an unread byte of nonempty chunks, or past the last. -/
structure Settled (reader : BytesReader) : Prop where
  solid : reader.inner.NoEmptyChunk
  slice_le : reader.cursor.slice ≤ reader.inner.chunks.length
  strict : StrictlyWithin reader.unread reader.cursor.byte

theorem Settled.placed {reader : BytesReader} (settled : reader.Settled) :
    reader.Placed :=
  ⟨settled.slice_le, settled.strict.within⟩

theorem solid_unread {reader : BytesReader}
    (solid : reader.inner.NoEmptyChunk) :
    ∀ slice ∈ reader.unread, 0 < slice.len :=
  fun slice member => solid slice (List.mem_of_mem_drop member)

theorem placed_reader (bytes : Bytes) : bytes.reader.Placed :=
  ⟨Nat.zero_le _, within_zero _⟩

theorem settled_reader {bytes : Bytes} (solid : bytes.NoEmptyChunk) :
    bytes.reader.Settled :=
  ⟨solid, Nat.zero_le _, strictlyWithin_zero solid⟩

@[simp]
theorem rest_reader (bytes : Bytes) : bytes.reader.rest = bytes.toVec := by
  simp [Bytes.reader, rest, unread, BytesPos.zero, Bytes.toVec]

/-- What is left to read ends the bytes. -/
theorem rest_suffix (reader : BytesReader) :
    reader.rest <:+ reader.inner.toVec := by
  have front := List.take_append_drop reader.cursor.slice
    reader.inner.chunks
  have split : reader.inner.toVec =
      contents (reader.inner.chunks.take reader.cursor.slice) ++
        contents reader.unread := by
    rw [← contents_append, unread, front]
    rfl
  rw [split]
  exact (List.drop_suffix _ _).trans (List.suffix_append _ _)

/-- Moving the cursor past some of the unread slices. -/
theorem unread_past (reader : BytesReader) (passed byte : Nat) :
    unread ⟨reader.inner, ⟨reader.cursor.slice + passed, byte⟩⟩ =
      reader.unread.drop passed := by
  simp [unread, List.drop_drop]

/-- The slice under the cursor is the first unread one. -/
theorem getElem?_slice (reader : BytesReader) :
    reader.inner.chunks[reader.cursor.slice]? = reader.unread.head? := by
  simp [unread, List.head?_drop]

/-- In a placed reader the count of remaining bytes does not underflow. -/
theorem Placed.remaining_eq {reader : BytesReader}
    (placed : reader.Placed) :
    reader.remaining = .ok reader.rest.length := by
  have bounded := placed.within.le_length
  rw [Bytes.length_contents] at bounded
  rw [remaining, if_pos placed.slice_le, checkedSub_of_le bounded, rest,
    List.length_drop, Bytes.length_contents]

/-- A settled reader at its end, or inside its first unread slice. -/
theorem Settled.cases {reader : BytesReader} (settled : reader.Settled) :
    (reader.unread = [] ∧ reader.cursor.byte = 0) ∨
      ∃ slice more, reader.unread = slice :: more ∧
        reader.cursor.byte < slice.len := by
  have strict := settled.strict
  cases slices : reader.unread with
  | nil =>
      rw [slices] at strict
      exact Or.inl ⟨rfl, strict⟩
  | cons slice more =>
      rw [slices] at strict
      exact Or.inr ⟨slice, more, rfl, strict⟩

/-! ## What the operations do from those positions -/

/--
A walk over `slices` from `cursor` to `after` that consumes `len` bytes and
passes the first `passed` slices.
-/
structure Walked (slices : List Chunk) (cursor after : BytesPos)
    (len passed : Nat) : Prop where
  slice_eq : after.slice = cursor.slice + passed
  passed_le : passed ≤ slices.length
  within : Within (slices.drop passed) after.byte
  left : (contents (slices.drop passed)).drop after.byte =
    (contents slices).drop (cursor.byte + len)
  strict : (∀ slice ∈ slices, 0 < slice.len) →
    StrictlyWithin slices cursor.byte →
      StrictlyWithin (slices.drop passed) after.byte

/-- The walk that reads nothing. -/
theorem Walked.refl (slices : List Chunk) (cursor : BytesPos)
    (within : Within slices cursor.byte) :
    Walked slices cursor cursor 0 0 :=
  ⟨rfl, Nat.zero_le _, within, rfl, fun _ strict => strict⟩

/-- A walk that stays in the first slice. -/
theorem Walked.inside {slice : Chunk} {rest : List Chunk}
    {cursor : BytesPos} {len : Nat}
    (inside : cursor.byte + len < slice.len) :
    Walked (slice :: rest) cursor ⟨cursor.slice, cursor.byte + len⟩ len 0 :=
  ⟨rfl, Nat.zero_le _, Nat.le_of_lt inside, rfl, fun _ _ => inside⟩

/-- A walk that leaves the first slice goes on in the others. -/
theorem Walked.cons {slice : Chunk} {rest : List Chunk}
    (cursor : BytesPos) {after : BytesPos} {len passed : Nat}
    (ordered : cursor.byte ≤ slice.len)
    (walked : Walked rest ⟨cursor.slice + 1, 0⟩ after len passed) :
    Walked (slice :: rest) cursor after (slice.len - cursor.byte + len)
      (passed + 1) where
  slice_eq := by
    have equal := walked.slice_eq
    simp only at equal
    omega
  passed_le := Nat.succ_le_succ walked.passed_le
  within := walked.within
  left := by
    have total : cursor.byte + (slice.len - cursor.byte + len) =
        slice.asSlice.length + len := by
      rw [Chunk.length_asSlice]
      omega
    have left := walked.left
    simp only [Nat.zero_add] at left
    rw [total, contents_cons, List.drop_length_add_append]
    exact left
  strict := by
    intro solid _
    have solidRest : ∀ slice ∈ rest, 0 < slice.len :=
      fun other member => solid other (List.mem_cons_of_mem _ member)
    exact walked.strict solidRest (strictlyWithin_zero solidRest)

/-- A walk over the unread slices keeps the reader placed. -/
theorem Walked.placed {reader : BytesReader} {after : BytesPos}
    {len passed : Nat} (placed : reader.Placed)
    (walked : Walked reader.unread reader.cursor after len passed) :
    Placed ⟨reader.inner, after⟩ ∧
      rest ⟨reader.inner, after⟩ = reader.rest.drop len := by
  obtain ⟨slice, byte⟩ := after
  have sliceEq : slice = reader.cursor.slice + passed := walked.slice_eq
  subst sliceEq
  have passedLe := walked.passed_le
  have sliceLe := placed.slice_le
  rw [unread, List.length_drop] at passedLe
  refine ⟨⟨?_, ?_⟩, ?_⟩
  · change reader.cursor.slice + passed ≤ reader.inner.chunks.length
    omega
  · rw [unread_past]
    exact walked.within
  · rw [rest, unread_past, rest, List.drop_drop]
    exact walked.left

/-- A walk over the unread slices keeps the reader settled. -/
theorem Walked.settled {reader : BytesReader} {after : BytesPos}
    {len passed : Nat} (settled : reader.Settled)
    (walked : Walked reader.unread reader.cursor after len passed) :
    Settled ⟨reader.inner, after⟩ := by
  have strict :=
    walked.strict (solid_unread settled.solid) settled.strict
  refine ⟨settled.solid, (walked.placed settled.placed).1.slice_le, ?_⟩
  obtain ⟨slice, byte⟩ := after
  have sliceEq : slice = reader.cursor.slice + passed := walked.slice_eq
  subst sliceEq
  rw [unread_past]
  exact strict

/-- The three ways one call of the slice iterator goes. -/
theorem next_cases {slice : Chunk} {cursor : BytesPos} (remaining : Nat)
    (ordered : cursor.byte ≤ slice.len) :
    ∃ chunk, chunk.len = min remaining (slice.len - cursor.byte) ∧
      chunk.asSlice =
        (slice.asSlice.drop cursor.byte).take remaining ∧
      BytesSliceIterator.next slice cursor remaining =
        .ok (some chunk,
          if remaining < slice.len - cursor.byte then
            ⟨cursor.slice, cursor.byte + remaining⟩
          else
            ⟨cursor.slice + 1, 0⟩,
          remaining - (slice.len - cursor.byte)) := by
  by_cases less : remaining < slice.len - cursor.byte
  · obtain ⟨chunk, viewed, content, length⟩ :=
      slice.view_of_le cursor.byte (cursor.byte + remaining) (by omega)
        (by omega)
    refine ⟨chunk, by omega, ?_, ?_⟩
    · rw [content, Nat.add_sub_cancel_left]
    · have zero : remaining - (slice.len - cursor.byte) = 0 := by omega
      simp only [BytesSliceIterator.next, if_pos ordered, ok_bind,
        if_pos less, zero, viewed]
      rfl
  · obtain ⟨chunk, viewed, content, length⟩ :=
      slice.view_of_le cursor.byte slice.len
        ordered (Nat.le_refl _)
    refine ⟨chunk, by omega, ?_, ?_⟩
    · rw [content, List.take_of_length_le, List.take_of_length_le]
      · simp
        omega
      · simp
    · by_cases equal : remaining = slice.len - cursor.byte
      · have stop : cursor.byte + remaining = slice.len := by omega
        have zero : remaining - (slice.len - cursor.byte) = 0 := by omega
        simp only [BytesSliceIterator.next, if_pos ordered, ok_bind,
          if_neg less, if_pos equal, stop, viewed, zero]
        rfl
      · have stop :
            cursor.byte + (slice.len - cursor.byte) = slice.len := by
          omega
        simp only [BytesSliceIterator.next, if_pos ordered, ok_bind,
          if_neg less, if_neg equal, stop, viewed]
        rfl

/-- The iterator goes on with what its step leaves. -/
theorem run_cons (slice : Chunk) (rest : List Chunk) (cursor : BytesPos)
    (len : Nat) :
    BytesSliceIterator.run (slice :: rest) cursor (len + 1) = (do
      let (item, cursor, remaining) ←
        BytesSliceIterator.next slice cursor (len + 1)
      match item with
      | none => return ([], cursor)
      | some chunk =>
          let (chunks, cursor) ←
            BytesSliceIterator.run rest cursor remaining
          return (chunk :: chunks, cursor)) :=
  rfl

/--
Reading `len` available bytes through the iterator yields those bytes, in
order, and never leaves the slices.
-/
theorem run_walked (slices : List Chunk) (cursor : BytesPos) (len : Nat)
    (within : Within slices cursor.byte)
    (available : cursor.byte + len ≤ (contents slices).length) :
    ∃ chunks after passed,
      BytesSliceIterator.run slices cursor len = .ok (chunks, after) ∧
      contents chunks = ((contents slices).drop cursor.byte).take len ∧
      Walked slices cursor after len passed ∧
      ((∀ slice ∈ slices, 0 < slice.len) →
        StrictlyWithin slices cursor.byte →
          ∀ chunk ∈ chunks, 0 < chunk.len) := by
  induction slices generalizing cursor len with
  | nil =>
      have none : len = 0 := by
        simp at available
        omega
      subst none
      refine ⟨[], cursor, 0, rfl, by simp, Walked.refl _ _ within, ?_⟩
      intro _ _ chunk member
      cases member
  | cons slice rest hypothesis =>
      cases len with
      | zero =>
          refine ⟨[], cursor, 0, rfl, by simp, Walked.refl _ _ within, ?_⟩
          intro _ _ chunk member
          cases member
      | succ len =>
          have ordered : cursor.byte ≤ slice.len := within
          obtain ⟨chunk, length, content, stepped⟩ :=
            next_cases (len + 1) ordered
          by_cases less : len + 1 < slice.len - cursor.byte
          · have zero : len + 1 - (slice.len - cursor.byte) = 0 := by
              omega
            rw [if_pos less, zero] at stepped
            refine ⟨[chunk],
              ⟨cursor.slice, cursor.byte + (len + 1)⟩, 0, ?_, ?_,
              Walked.inside (by omega), ?_⟩
            · rw [run_cons, stepped]
              change (do
                let (chunks, cursor) ← BytesSliceIterator.run rest _ 0
                _) = _
              rw [show BytesSliceIterator.run rest
                ⟨cursor.slice, cursor.byte + (len + 1)⟩ 0 =
                  .ok ([], _) from by cases rest <;> rfl]
              rfl
            · rw [contents_cons, contents_nil, List.append_nil, content,
                contents_cons, List.drop_append_of_le_length (by simpa),
                List.take_append_of_le_length]
              simp
              omega
            · intro _ _ other member
              cases List.mem_singleton.1 member
              omega
          · rw [if_neg less] at stepped
            obtain ⟨chunks, after, passed, inner, bytes, walked, solid⟩ :=
              hypothesis ⟨cursor.slice + 1, 0⟩
                (len + 1 - (slice.len - cursor.byte)) (within_zero rest) (by
                  simp only [contents_cons, List.length_append,
                    Chunk.length_asSlice] at available
                  simp only [Nat.zero_add]
                  omega)
            refine ⟨chunk :: chunks, after, passed + 1, ?_, ?_, ?_, ?_⟩
            · rw [run_cons, stepped]
              change (do
                let (chunks, cursor) ← BytesSliceIterator.run rest _ _
                _) = _
              rw [inner]
              rfl
            · rw [contents_cons, bytes, content, List.drop_zero,
                contents_cons, List.drop_append_of_le_length (by simpa),
                List.take_append]
              simp
            · have total : len + 1 = slice.len - cursor.byte +
                  (len + 1 - (slice.len - cursor.byte)) := by omega
              rw [total]
              exact walked.cons cursor ordered
            · intro solidAll strict other member
              have solidRest : ∀ slice ∈ rest, 0 < slice.len :=
                fun slice inRest =>
                  solidAll slice (List.mem_cons_of_mem _ inRest)
              have strictHere : cursor.byte < slice.len := strict
              rcases List.mem_cons.1 member with rfl | later
              · omega
              · exact solid solidRest (strictlyWithin_zero solidRest)
                  other later

/-! ## Presentations -/

/-- Placed readers over fixed chunks. -/
def placed (inner : Bytes) : Presentation BytesReader UInt8 where
  valid reader := reader.inner = inner ∧ reader.Placed
  rest := rest

/-- Settled readers over fixed chunks. -/
def settled (inner : Bytes) : Presentation BytesReader UInt8 where
  valid reader := reader.inner = inner ∧ reader.Settled
  rest := rest

theorem settled_valid_reader {bytes : Bytes} (solid : bytes.NoEmptyChunk) :
    (settled bytes).valid bytes.reader :=
  ⟨rfl, settled_reader solid⟩

/-- What `readChunks` does in a placed reader. -/
theorem readChunks_placed {reader : BytesReader} (placed : reader.Placed)
    (len : Nat) :
    if len ≤ reader.rest.length then
      ∃ chunks after passed,
        readChunks len reader = .ok chunks ⟨reader.inner, after⟩ ∧
        contents chunks = reader.rest.take len ∧
        Walked reader.unread reader.cursor after len passed ∧
        (reader.Settled → ∀ chunk ∈ chunks, 0 < chunk.len)
    else
      readChunks len reader = .err reader := by
  have remaining := placed.remaining_eq
  split
  · rename_i enough
    have length : reader.rest.length =
        (contents reader.unread).length - reader.cursor.byte :=
      List.length_drop
    have bounded := placed.within.le_length
    obtain ⟨chunks, after, passed, run, bytes, walked, solid⟩ :=
      run_walked reader.unread reader.cursor len placed.within (by omega)
    refine ⟨chunks, after, passed, ?_, bytes, walked, ?_⟩
    · simp only [readChunks, Cursor.get_bind, remaining, Cursor.lift_ok,
        Cursor.pure_bind, if_neg (Nat.not_lt.2 enough), run,
        Cursor.set_bind, Cursor.pure_apply]
    · intro settled
      exact solid (solid_unread settled.solid) settled.strict
  · rename_i few
    simp only [readChunks, Cursor.get_bind, remaining, Cursor.lift_ok,
      Cursor.pure_bind, if_pos (Nat.lt_of_not_le few), Cursor.fail_apply]

/-- Reading chunks from a settled reader yields nonempty chunks. -/
theorem readChunks_refines (inner : Bytes) (len : Nat) :
    (settled inner).Refines
      (fun chunks bytes =>
        contents chunks = bytes ∧ ∀ chunk ∈ chunks, 0 < chunk.len)
      (readChunks len) (Parser.takeExactly len) := by
  rintro reader ⟨rfl, settled⟩
  have spec := readChunks_placed settled.placed len
  change Presentation.Agrees _ _ _ (Parser.takeExactly len reader.rest)
  unfold Parser.takeExactly
  split at spec
  · rename_i enough
    obtain ⟨chunks, after, passed, run, bytes, walked, solid⟩ := spec
    rw [run, if_pos enough]
    exact ⟨⟨bytes, solid settled⟩, ⟨rfl, walked.settled settled⟩,
      (walked.placed settled.placed).2⟩
  · rename_i few
    rw [spec, if_neg few]
    trivial

/-- The rest of a reader whose first unread slice is known. -/
theorem rest_of_unread {reader : BytesReader} {slice : Chunk}
    {more : List Chunk} (slices : reader.unread = slice :: more)
    (inside : reader.cursor.byte ≤ slice.len) :
    reader.rest =
      slice.asSlice.drop reader.cursor.byte ++ contents more := by
  rw [rest, slices, contents_cons,
    List.drop_append_of_le_length (by simpa using inside)]

/-- Reading one byte takes the next byte. -/
theorem readU8_refines (inner : Bytes) :
    (settled inner).Refines Eq readU8 Parser.next := by
  rintro reader ⟨rfl, settled⟩
  change Presentation.Agrees _ _ _ (Parser.next reader.rest)
  rcases settled.cases with ⟨slices, start⟩ | ⟨slice, more, slices, inside⟩
  · have atEnd : reader.rest = [] := by
      rw [rest, slices, contents_nil, List.drop_nil]
    simp only [readU8, Cursor.get_bind, getElem?_slice, slices,
      List.head?_nil, Cursor.ofOption_none, Cursor.fail_bind, atEnd]
    trivial
  · have inSlice : reader.cursor.byte < slice.asSlice.length := by
      simpa using inside
    have head : reader.rest =
        slice.asSlice[reader.cursor.byte] ::
          (slice.asSlice.drop (reader.cursor.byte + 1) ++
            contents more) := by
      rw [rest_of_unread slices (Nat.le_of_lt inside),
        List.drop_eq_getElem_cons inSlice, List.cons_append]
    have tail : reader.rest.drop 1 =
        slice.asSlice.drop (reader.cursor.byte + 1) ++ contents more := by
      rw [head]
      rfl
    have walk : ∀ after passed,
        Walked reader.unread reader.cursor after 1 passed →
          (BytesReader.settled reader.inner).Agrees Eq
            (.ok slice.asSlice[reader.cursor.byte] ⟨reader.inner, after⟩)
            (Parser.next reader.rest) := by
      intro after passed walked
      have kept := walked.placed settled.placed
      rw [head]
      refine ⟨rfl, ⟨rfl, walked.settled settled⟩, ?_⟩
      rw [← tail]
      exact kept.2
    simp only [readU8, Cursor.get_bind, getElem?_slice, slices,
      List.head?_cons, Cursor.ofOption_some, Cursor.pure_bind,
      List.getElem?_eq_getElem inSlice]
    split
    · rename_i last
      simp only [Cursor.set_bind, Cursor.pure_apply]
      apply walk _ 1
      rw [slices]
      have walked := Walked.cons reader.cursor (Nat.le_of_lt inside)
        (Walked.refl more ⟨reader.cursor.slice + 1, 0⟩
          (within_zero more))
      have one : slice.len - reader.cursor.byte + 0 = 1 := by omega
      rwa [one] at walked
    · rename_i notLast
      simp only [Cursor.set_bind, Cursor.pure_apply]
      apply walk _ 0
      rw [slices]
      exact Walked.inside (by omega)

/-- Reading a contiguous chunk is a shortcut for taking its bytes. -/
theorem readChunkContiguous_attempts (inner : Bytes) {len : Nat}
    (nonzero : 0 < len) :
    (settled inner).Attempts
      (fun chunk bytes => chunk.asSlice = bytes ∧ 0 < chunk.len)
      (readChunkContiguous len) (Parser.takeExactly len) := by
  rintro reader ⟨rfl, settled⟩
  change Presentation.Attempted _ _ _ _
    (Parser.takeExactly len reader.rest)
  rcases settled.cases with ⟨slices, start⟩ | ⟨slice, more, slices, inside⟩
  · simp only [readChunkContiguous, Cursor.get_bind, getElem?_slice, slices,
      List.head?_nil, Cursor.ofOption_none, Cursor.fail_bind]
    exact ⟨⟨rfl, settled⟩, rfl⟩
  · have ordered := Nat.le_of_lt inside
    have split := rest_of_unread slices ordered
    have taken : len ≤ slice.len - reader.cursor.byte →
        Parser.takeExactly len reader.rest =
          some ((slice.asSlice.drop reader.cursor.byte).take len,
            reader.rest.drop len) := by
      intro enough
      have fits :
          len ≤ (slice.asSlice.drop reader.cursor.byte).length := by
        simpa using enough
      rw [Parser.takeExactly, if_pos, split,
        List.take_append_of_le_length fits]
      rw [split, List.length_append]
      omega
    have walk : ∀ (chunk : Chunk) after passed,
        len ≤ slice.len - reader.cursor.byte → 0 < chunk.len →
        chunk.asSlice = (slice.asSlice.drop reader.cursor.byte).take len →
        Walked reader.unread reader.cursor after len passed →
          (BytesReader.settled reader.inner).Agrees
            (fun chunk bytes => chunk.asSlice = bytes ∧ 0 < chunk.len)
            (.ok chunk ⟨reader.inner, after⟩)
            (Parser.takeExactly len reader.rest) := by
      intro chunk after passed enough solid content walked
      rw [taken enough]
      exact ⟨⟨content, solid⟩, ⟨rfl, walked.settled settled⟩,
        (walked.placed settled.placed).2⟩
    simp only [readChunkContiguous, Cursor.get_bind, getElem?_slice, slices,
      List.head?_cons, Cursor.ofOption_some, Cursor.pure_bind,
      checkedSub_of_le ordered, Cursor.lift_ok]
    by_cases less : slice.len - reader.cursor.byte < len
    · rw [if_pos less]
      exact ⟨⟨rfl, settled⟩, rfl⟩
    · by_cases equal : slice.len - reader.cursor.byte = len
      · obtain ⟨chunk, viewed, content, length⟩ := slice.view_from ordered
        simp only [if_neg less, if_pos equal, viewed, Cursor.lift_ok,
          Cursor.pure_bind, Cursor.ofOption_some, Cursor.set_bind,
          Cursor.pure_apply]
        apply walk chunk _ 1 (by omega) (by omega)
        · rw [content, List.take_of_length_le]
          simp
          omega
        · rw [slices, ← equal]
          exact Walked.cons reader.cursor ordered
            (Walked.refl more ⟨reader.cursor.slice + 1, 0⟩
              (within_zero more))
      · obtain ⟨chunk, viewed, content, length⟩ :=
          slice.view_of_le reader.cursor.byte (reader.cursor.byte + len)
            (by omega) (by omega)
        simp only [if_neg less, if_neg equal, viewed, Cursor.lift_ok,
          Cursor.pure_bind, Cursor.ofOption_some, Cursor.set_bind,
          Cursor.pure_apply]
        apply walk chunk _ 0 (by omega) (by omega)
        · rw [content, Nat.add_sub_cancel_left]
        · rw [slices]
          exact Walked.inside (by omega)

/-! ## Skipping, seeking and views -/

/-- Skipping available bytes walks over them. -/
theorem skipSlices_walked (slices : List Chunk) (cursor : BytesPos)
    (offset : Nat)
    (within : Within slices cursor.byte)
    (available : cursor.byte + offset ≤ (contents slices).length) :
    ∃ after passed,
      skipSlices slices cursor offset = .ok (true, after) ∧
        Walked slices cursor after offset passed := by
  induction slices generalizing cursor offset with
  | nil =>
      have none : offset = 0 := by
        simp at available
        omega
      subst none
      exact ⟨cursor, 0, rfl, Walked.refl _ _ within⟩
  | cons slice rest hypothesis =>
      cases offset with
      | zero => exact ⟨cursor, 0, rfl, Walked.refl _ _ within⟩
      | succ offset =>
          have ordered : cursor.byte ≤ slice.len := within
          simp only [contents_cons, List.length_append,
            Chunk.length_asSlice] at available
          simp only [skipSlices, checkedSub_of_le ordered, ok_bind]
          by_cases leaves : cursor.byte +
              min (offset + 1) (slice.len - cursor.byte) = slice.len
          · rw [if_pos leaves]
            obtain ⟨after, passed, run, walked⟩ :=
              hypothesis ⟨cursor.slice + 1, 0⟩
                (offset + 1 - min (offset + 1) (slice.len - cursor.byte))
                (within_zero rest) (by
                  simp only [Nat.zero_add]
                  omega)
            refine ⟨after, passed + 1, run, ?_⟩
            have total : offset + 1 = slice.len - cursor.byte +
                (offset + 1 -
                  min (offset + 1) (slice.len - cursor.byte)) := by
              omega
            rw [total]
            exact walked.cons cursor ordered
          · rw [if_neg leaves]
            have stays : min (offset + 1) (slice.len - cursor.byte) =
                offset + 1 := by
              omega
            rw [stays] at leaves ⊢
            exact ⟨_, 0, rfl, Walked.inside (by omega)⟩

/-- Skipping available bytes of a placed reader. -/
theorem skip_placed {reader : BytesReader} (placed : reader.Placed)
    (offset : Nat) (enough : offset ≤ reader.rest.length) :
    ∃ after passed,
      skip offset reader = .ok () ⟨reader.inner, after⟩ ∧
        Walked reader.unread reader.cursor after offset passed := by
  have length : reader.rest.length =
      (contents reader.unread).length - reader.cursor.byte :=
    List.length_drop
  have bounded := placed.within.le_length
  obtain ⟨after, passed, run, walked⟩ :=
    skipSlices_walked reader.unread reader.cursor offset placed.within
      (by omega)
  refine ⟨after, passed, ?_, walked⟩
  simp only [skip, Cursor.get_bind, run, Cursor.lift_ok, Cursor.pure_bind,
    Cursor.set_bind, if_true, Cursor.pure_apply]

/-- A saved position of a settled reader can be sought unless at the end. -/
theorem seek_settled {reader : BytesReader} (settled : reader.Settled)
    (other : BytesReader) (same : other.inner = reader.inner) :
    other.seek reader.mark =
      if reader.rest = [] then (false, other) else (true, reader) := by
  obtain ⟨inner, cursor⟩ := reader
  obtain ⟨otherInner, otherCursor⟩ := other
  cases same
  have sliceEq := getElem?_slice ⟨inner, cursor⟩
  simp only at sliceEq
  unfold seek mark
  rw [sliceEq]
  rcases settled.cases with ⟨slices, start⟩ | ⟨slice, more, slices, inside⟩
  · rw [slices, if_pos (by rw [rest, slices, contents_nil, List.drop_nil])]
    rfl
  · have nonempty : rest ⟨inner, cursor⟩ ≠ [] := by
      rw [rest_of_unread slices (Nat.le_of_lt inside)]
      intro empty
      have lengths := congrArg List.length empty
      simp only [List.length_append, List.length_drop,
        Chunk.length_asSlice, List.length_nil] at lengths
      simp only at inside
      omega
    rw [slices, if_neg nonempty]
    simp only [List.head?_cons]
    rw [if_pos (Nat.le_of_lt inside)]

end BytesReader

/-- A view inside the bytes exists and holds that range of them. -/
theorem Bytes.view_of_le (bytes : Bytes) (lower upper : Bound)
    {start stop : Nat} (lowerIs : lower.startDelta = .ok start)
    (upperIs : upper.endDelta bytes.len = .ok stop)
    (ordered : start ≤ stop) (bounded : stop ≤ bytes.len) :
    ∃ result, bytes.view lower upper = .ok (some result) ∧
      result.toVec = (bytes.toVec.drop start).take (stop - start) ∧
      (bytes.NoEmptyChunk → result.NoEmptyChunk) := by
  have placed := BytesReader.placed_reader bytes
  have length := bytes.length_toVec
  obtain ⟨after, passed, skipped, walked⟩ :=
    BytesReader.skip_placed placed start
      (by rw [BytesReader.rest_reader]; omega)
  have kept := walked.placed placed
  have left : BytesReader.rest ⟨bytes.reader.inner, after⟩ =
      bytes.toVec.drop start := by
    rw [kept.2, BytesReader.rest_reader]
  have read := BytesReader.readChunks_placed kept.1 (stop - start)
  rw [if_pos (by rw [left, List.length_drop]; omega)] at read
  obtain ⟨chunks, last, more, run, content, _, solid⟩ := read
  refine ⟨⟨chunks⟩, ?_, ?_, ?_⟩
  · simp only [view, lowerIs, upperIs, ok_bind, skipped,
      checkedSub_of_le ordered, run]
    rfl
  · rw [← left]
    exact content
  · intro noEmpty
    exact solid
      (walked.settled (BytesReader.settled_reader noEmpty))

end Thubo
