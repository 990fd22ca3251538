import Thubo.Buffers.Bytes

/-!
# Moving a reader

Besides the reads of the decoders, a reader copies bytes into a buffer, hands
out a chunk of a given length, skips, backtracks and seeks.  Positions are
compared by their absolute offset: the offset of a chunk boundary is that of
two positions, the end of one chunk and the start of the next.
-/

namespace Thubo

/-! ## Fixed-width arithmetic -/

/-- `i64::MAX`, and `isize::MAX` on the same machine. -/
def i64Max : Int :=
  2 ^ 63 - 1

/-- `i64::MIN`. -/
def i64Min : Int :=
  -2 ^ 63

/-- The result of an addition, a subtraction or a negation of `i64`. -/
def checkedI64 (value : Int) : Except Fault Int :=
  if i64Min ≤ value ∧ value ≤ i64Max then
    .ok value
  else
    .error .arithmetic

/-- The cast of an `usize` to an `i64`. -/
def castI64 (value : Nat) : Int :=
  if (value : Int) ≤ i64Max then
    value
  else
    value - 2 ^ 64

/-- The cast of an `i64` to an `u64`. -/
def castU64 (value : Int) : Nat :=
  (value % 2 ^ 64).toNat

/-- Where to seek, as in `io::SeekFrom`. -/
inductive SeekFrom where
  | start (s : UInt64)
  | current (s : Int64)
  | fromEnd (s : Int64)
deriving DecidableEq

/-- The errors of `io::Seek::seek`. -/
inductive SeekError where
  /-- The current position is no `i64`. -/
  | other
  | invalidInput
deriving DecidableEq, Repr

namespace BytesReader

/-! ## Reading into a buffer -/

/--
The loop of `read` into a buffer with room for `into` bytes, over the slices
from the cursor on: the bytes it copies and the position it leaves.
-/
def readSlices : List Chunk → BytesPos → Nat →
    Except Fault (List UInt8 × BytesPos)
  | [], cursor, _ => .ok ([], cursor)
  | slice :: rest, cursor, into => do
      -- the unchecked range `cursor.byte..`
      let available ← if cursor.byte ≤ slice.len then
          .ok (slice.asSlice.drop cursor.byte)
        else
          .error .bounds
      let len := min available.length into
      let cursor :=
        if cursor.byte + len = slice.len then
          ⟨cursor.slice + 1, 0⟩
        else
          { cursor with byte := cursor.byte + len }
      if into - len = 0 then
        return (available.take len, cursor)
      else
        let (more, cursor) ← readSlices rest cursor (into - len)
        return (available.take len ++ more, cursor)

/-- Copy up to `into` bytes, and fail when there is none to copy. -/
def read (into : Nat) : Cursor BytesReader (List UInt8) := do
  let reader ← Cursor.get
  let (bytes, cursor) ←
    Cursor.lift (readSlices reader.unread reader.cursor into)
  Cursor.set { reader with cursor := cursor }
  if bytes.length = 0 then
    Cursor.fail
  else
    return bytes

/-- Copy exactly `into` bytes. -/
def readExact (into : Nat) : Cursor BytesReader (List UInt8) := do
  let bytes ← read into
  if bytes.length = into then
    return bytes
  else
    Cursor.fail

/--
Read `len` bytes as one chunk: a view when they lie in the slice under the
cursor, else a copy.
-/
def readChunk (len : Nat) : Cursor BytesReader Chunk := do
  let reader ← Cursor.get
  let slice ← Cursor.ofOption reader.inner.chunks[reader.cursor.slice]?
  let left ← Cursor.lift (checkedSub slice.len reader.cursor.byte)
  if left < len then
    let buffer ← readExact len
    return .ofBuf buffer
  else if left = len then
    let view ←
      Cursor.lift (slice.view (.included reader.cursor.byte) .unbounded)
    let chunk ← Cursor.ofOption view
    Cursor.set { reader with cursor := ⟨reader.cursor.slice + 1, 0⟩ }
    return chunk
  else
    let start := reader.cursor.byte
    let stop := start + len
    Cursor.set { reader with cursor := ⟨reader.cursor.slice, stop⟩ }
    let view ←
      Cursor.lift (slice.view (.included start) (.excluded stop))
    Cursor.ofOption view

/-! ## Moving by an offset -/

/--
The loop of `backtrack` from the position `byte` of the slice numbered
`slice`: whether the whole offset was taken back, and the position.
-/
def backtrackFrom (chunks : List Chunk) : Nat → Nat → Nat →
    Bool × BytesPos
  | slice, byte, 0 => (true, ⟨slice, byte⟩)
  | slice, byte, offset + 1 =>
      let backtrack := min (offset + 1) byte
      let remaining := offset + 1 - backtrack
      if byte - backtrack = 0 then
        match slice with
        | 0 => (remaining == 0, .zero)
        | slice + 1 =>
            match chunks[slice]? with
            | none => (false, ⟨slice, 0⟩)
            | some previous =>
                backtrackFrom chunks slice previous.len remaining
      else
        -- the whole offset fits in the slice, and the loop ends
        (remaining == 0, ⟨slice, byte - backtrack⟩)

/-- Move backward by `offset` bytes. -/
def backtrack (offset : Nat) : Cursor BytesReader Unit := do
  let reader ← Cursor.get
  let (whole, cursor) :=
    backtrackFrom reader.inner.chunks reader.cursor.slice
      reader.cursor.byte offset
  Cursor.set { reader with cursor := cursor }
  if whole then
    return ()
  else
    Cursor.fail

/-- Move by a signed offset. -/
def advance (offset : Int) : Cursor BytesReader Unit :=
  if 0 < offset then
    skip offset.toNat
  else do
    let negated ← Cursor.lift (checkedI64 (-offset))
    backtrack negated.toNat

/-! ## Seeking -/

/-- The sum of the lengths of chunks, added up from `acc`. -/
def sumLens (acc : Nat) : List Chunk → Except Fault Nat
  | [] => .ok acc
  | slice :: rest => do
      let acc ← checkedAdd acc slice.len
      sumLens acc rest

/-- The current position of a reader. -/
def currentPos (reader : BytesReader) : Except Fault Nat := do
  let before ←
    sumLens 0 (reader.inner.chunks.take reader.cursor.slice)
  checkedAdd before reader.cursor.byte

/-- The offset of a seek from a current position. -/
def seekOffset (reader : BytesReader) (current : Int) :
    SeekFrom → Except Fault Int
  | .start s => checkedI64 (min (s.toNat : Int) i64Max - current)
  | .current s => .ok s.toInt
  | .fromEnd s => do
      let len ← sumLens 0 reader.inner.chunks
      let sum ← checkedI64 (castI64 len + s.toInt)
      checkedI64 (sum - current)

/-- Move to a position of the stream and return it. -/
def ioSeek (reader : BytesReader) (pos : SeekFrom) :
    Except Fault (Except SeekError Nat × BytesReader) := do
  let current ← reader.currentPos
  if (current : Int) ≤ i64Max then
    let offset ← reader.seekOffset current pos
    match advance offset reader with
    | .ok _ reader =>
        let target ← checkedI64 (offset + current)
        return (.ok (castU64 target), reader)
    | .err reader => return (.error .invalidInput, reader)
    | .fault fault => .error fault
  else
    return (.error .other, reader)

/-! ## Absolute offsets -/

/-- The absolute offset of a position. -/
def offsetAt (chunks : List Chunk) (slice byte : Nat) : Nat :=
  (contents (chunks.take slice)).length + byte

/-- The absolute offset of a reader. -/
def offset (reader : BytesReader) : Nat :=
  offsetAt reader.inner.chunks reader.cursor.slice reader.cursor.byte

@[simp]
theorem offset_reader (bytes : Bytes) : bytes.reader.offset = 0 := by
  simp [offset, offsetAt, Bytes.reader, BytesPos.zero]

theorem toVec_split (reader : BytesReader) :
    reader.inner.toVec =
      contents (reader.inner.chunks.take reader.cursor.slice) ++
        contents reader.unread := by
  rw [← contents_append, unread, List.take_append_drop]
  rfl

/-- What is left to read starts at the absolute offset. -/
theorem rest_eq_drop (reader : BytesReader) :
    reader.rest = reader.inner.toVec.drop reader.offset := by
  rw [toVec_split reader, offset, offsetAt, List.drop_length_add_append]
  rfl

/-- The absolute offset and the number of bytes left make up the length. -/
theorem Placed.offset_add {reader : BytesReader} (placed : reader.Placed) :
    reader.offset + reader.rest.length = reader.inner.len := by
  have bounded := placed.within.le_length
  have lengths := congrArg List.length reader.toVec_split
  rw [List.length_append, Bytes.length_toVec] at lengths
  rw [rest, List.length_drop, offset, offsetAt]
  omega

theorem Placed.offset_le {reader : BytesReader} (placed : reader.Placed) :
    reader.offset ≤ reader.inner.len := by
  have total := placed.offset_add
  omega

/-- A walk over available bytes moves the offset by their number. -/
theorem Walked.offset_eq {reader : BytesReader} {after : BytesPos}
    {len passed : Nat} (placed : reader.Placed)
    (walked : Walked reader.unread reader.cursor after len passed)
    (enough : len ≤ reader.rest.length) :
    offset ⟨reader.inner, after⟩ = reader.offset + len := by
  rcases walked.placed placed with ⟨kept, left⟩
  have before := placed.offset_add
  have total := kept.offset_add
  rw [left, List.length_drop] at total
  simp only at total
  omega

/-! ## What the reads do -/

/-- Copying into a buffer walks over the bytes that fit. -/
theorem readSlices_walked (slices : List Chunk) (cursor : BytesPos)
    (into : Nat) (within : Within slices cursor.byte) :
    ∃ after passed,
      readSlices slices cursor into =
        .ok (((contents slices).drop cursor.byte).take into, after) ∧
      Walked slices cursor after
        (((contents slices).drop cursor.byte).take into).length passed := by
  induction slices generalizing cursor into with
  | nil =>
      refine ⟨cursor, 0, by simp [readSlices], ?_⟩
      simpa using Walked.refl [] cursor within
  | cons slice rest hypothesis =>
      have ordered : cursor.byte ≤ slice.len := within
      have split : (contents (slice :: rest)).drop cursor.byte =
          slice.asSlice.drop cursor.byte ++ contents rest := by
        rw [contents_cons, List.drop_append_of_le_length (by simpa)]
      have available : (slice.asSlice.drop cursor.byte).length =
          slice.len - cursor.byte := by
        simp
      rw [split]
      simp only [readSlices, if_pos ordered, ok_bind, available]
      by_cases less : into < slice.len - cursor.byte
      · have count : min (slice.len - cursor.byte) into = into := by omega
        have inside : ¬ cursor.byte + into = slice.len := by omega
        rw [List.take_append_of_le_length (by omega), count,
          if_neg inside, if_pos (Nat.sub_self into)]
        refine ⟨_, 0, rfl, ?_⟩
        rw [List.length_take, available, Nat.min_eq_left (by omega)]
        exact Walked.inside (by omega)
      · have count : min (slice.len - cursor.byte) into =
            slice.len - cursor.byte := by
          omega
        have leaves :
            cursor.byte + (slice.len - cursor.byte) = slice.len := by
          omega
        have whole : (slice.asSlice.drop cursor.byte).take into =
            slice.asSlice.drop cursor.byte :=
          List.take_of_length_le (by omega)
        rw [List.take_append, available, count, if_pos leaves, whole,
          List.take_of_length_le (Nat.le_of_eq available),
          List.length_append, available]
        by_cases full : into - (slice.len - cursor.byte) = 0
        · rw [if_pos full, full, List.take_zero, List.append_nil]
          refine ⟨_, 1, rfl, ?_⟩
          exact Walked.cons cursor ordered
            (Walked.refl rest ⟨cursor.slice + 1, 0⟩ (within_zero rest))
        · rcases hypothesis ⟨cursor.slice + 1, 0⟩
            (into - (slice.len - cursor.byte)) (within_zero rest) with
            ⟨after, passed, run, walked⟩
          rw [if_neg full, run]
          exact ⟨after, passed + 1, rfl, walked.cons cursor ordered⟩

/-- `read` copies the next bytes, as many as fit, and fails on none. -/
theorem read_placed {reader : BytesReader} (placed : reader.Placed)
    (into : Nat) :
    ∃ after passed,
      Walked reader.unread reader.cursor after
        (reader.rest.take into).length passed ∧
      read into reader =
        if reader.rest.take into = [] then
          .err ⟨reader.inner, after⟩
        else
          .ok (reader.rest.take into) ⟨reader.inner, after⟩ := by
  rcases readSlices_walked reader.unread reader.cursor into
    placed.within with ⟨after, passed, run, walked⟩
  change readSlices _ _ _ = .ok (reader.rest.take into, after) at run
  refine ⟨after, passed, walked, ?_⟩
  simp only [read, Cursor.get_bind, run, Cursor.lift_ok, Cursor.pure_bind,
    Cursor.set_bind, List.length_eq_zero_iff]
  split
  · rfl
  · rfl

/-- `readExact` copies a positive number of bytes when so many are left. -/
theorem readExact_placed {reader : BytesReader} (placed : reader.Placed)
    {into : Nat} (positive : 0 < into) :
    ∃ after passed,
      Walked reader.unread reader.cursor after
        (reader.rest.take into).length passed ∧
      readExact into reader =
        if into ≤ reader.rest.length then
          .ok (reader.rest.take into) ⟨reader.inner, after⟩
        else
          .err ⟨reader.inner, after⟩ := by
  rcases read_placed placed into with ⟨after, passed, walked, run⟩
  refine ⟨after, passed, walked, ?_⟩
  by_cases none : reader.rest.take into = []
  · have short : ¬ into ≤ reader.rest.length := by
      have lengths := congrArg List.length none
      rw [List.length_take, List.length_nil] at lengths
      omega
    rw [if_pos none] at run
    rw [if_neg short, readExact, Cursor.bind_err run]
  · rw [if_neg none] at run
    rw [readExact, Cursor.bind_ok run]
    have count : (reader.rest.take into).length = into ↔
        into ≤ reader.rest.length := by
      rw [List.length_take]
      omega
    by_cases enough : into ≤ reader.rest.length
    · rw [if_pos (count.2 enough), if_pos enough]
      rfl
    · rw [if_neg (fun equal => enough (count.1 equal)), if_neg enough]
      rfl

/--
`readChunk` takes available bytes while there is a slice under the cursor;
where it fails it has walked over bytes that were left.
-/
theorem readChunk_placed {reader : BytesReader} (placed : reader.Placed)
    (len : Nat) :
    if reader.unread ≠ [] ∧ len ≤ reader.rest.length then
      ∃ chunk after passed,
        readChunk len reader = .ok chunk ⟨reader.inner, after⟩ ∧
        chunk.asSlice = reader.rest.take len ∧
        Walked reader.unread reader.cursor after len passed
    else
      ∃ after count passed,
        readChunk len reader = .err ⟨reader.inner, after⟩ ∧
        count ≤ reader.rest.length ∧
        Walked reader.unread reader.cursor after count passed := by
  have within := placed.within
  cases slices : reader.unread with
  | nil =>
      rw [if_neg (fun both => both.1 rfl)]
      rw [slices] at within
      refine ⟨reader.cursor, 0, 0, ?_, Nat.zero_le _,
        Walked.refl [] reader.cursor within⟩
      simp only [readChunk, Cursor.get_bind, getElem?_slice, slices,
        List.head?_nil, Cursor.ofOption_none, Cursor.fail_bind]
  | cons slice more =>
      rw [slices] at within
      have ordered : reader.cursor.byte ≤ slice.len := within
      have split := rest_of_unread slices ordered
      have available : (slice.asSlice.drop reader.cursor.byte).length =
          slice.len - reader.cursor.byte := by
        simp
      simp only [readChunk, Cursor.get_bind, getElem?_slice, slices,
        List.head?_cons, Cursor.ofOption_some, Cursor.pure_bind,
        checkedSub_of_le ordered, Cursor.lift_ok]
      by_cases less : slice.len - reader.cursor.byte < len
      · rw [if_pos less]
        rcases readExact_placed placed (show 0 < len by omega) with
          ⟨after, passed, walked, run⟩
        rw [slices, List.length_take] at walked
        by_cases enough : len ≤ reader.rest.length
        · rw [if_pos ⟨List.cons_ne_nil _ _, enough⟩]
          rw [if_pos enough] at run
          rw [Nat.min_eq_left enough] at walked
          refine ⟨.ofBuf (reader.rest.take len), after, passed, ?_,
            Chunk.asSlice_ofBuf _, walked⟩
          rw [Cursor.bind_ok run]
          rfl
        · rw [if_neg (fun both => enough both.2)]
          rw [if_neg enough] at run
          refine ⟨after, _, passed, Cursor.bind_err run, ?_, walked⟩
          omega
      · have enough : len ≤ reader.rest.length := by
          rw [split, List.length_append]
          omega
        have taken : reader.rest.take len =
            (slice.asSlice.drop reader.cursor.byte).take len := by
          rw [split, List.take_append_of_le_length (by omega)]
        rw [if_pos ⟨List.cons_ne_nil _ _, enough⟩, if_neg less]
        by_cases equal : slice.len - reader.cursor.byte = len
        · rcases slice.view_from ordered with
            ⟨chunk, viewed, content, length⟩
          refine ⟨chunk, ⟨reader.cursor.slice + 1, 0⟩, 1, ?_, ?_, ?_⟩
          · simp only [if_pos equal, viewed, Cursor.lift_ok,
              Cursor.pure_bind, Cursor.ofOption_some, Cursor.set_bind,
              Cursor.pure_apply]
          · rw [taken, content, List.take_of_length_le (by omega)]
          · rw [← equal]
            exact Walked.cons reader.cursor ordered
              (Walked.refl more ⟨reader.cursor.slice + 1, 0⟩
                (within_zero more))
        · rcases slice.view_of_le reader.cursor.byte
            (reader.cursor.byte + len) (by omega) (by omega) with
            ⟨chunk, viewed, content, length⟩
          refine ⟨chunk, ⟨reader.cursor.slice, reader.cursor.byte + len⟩,
            0, ?_, ?_, Walked.inside (by omega)⟩
          · simp only [if_neg equal, viewed, Cursor.lift_ok,
              Cursor.pure_bind, Cursor.ofOption_some, Cursor.set_bind]
            rfl
          · rw [taken, content, Nat.add_sub_cancel_left]

/-! ## What the moves do -/

/-- Skipping more bytes than are left ends past the last slice. -/
theorem skipSlices_short (slices : List Chunk) (cursor : BytesPos)
    (offset : Nat) (within : Within slices cursor.byte)
    (short : (contents slices).length < cursor.byte + offset) :
    skipSlices slices cursor offset =
      .ok (false, ⟨cursor.slice + slices.length, 0⟩) := by
  induction slices generalizing cursor offset with
  | nil =>
      have start : cursor.byte = 0 := within
      cases offset with
      | zero => simp [start] at short
      | succ offset =>
          rcases cursor with ⟨slice, byte⟩
          cases start
          rfl
  | cons slice rest hypothesis =>
      have ordered : cursor.byte ≤ slice.len := within
      rw [contents_cons, List.length_append, Chunk.length_asSlice] at short
      cases offset with
      | zero => omega
      | succ offset =>
          have advance : min (offset + 1) (slice.len - cursor.byte) =
              slice.len - cursor.byte := by
            omega
          have leaves :
              cursor.byte + (slice.len - cursor.byte) = slice.len := by
            omega
          have next := hypothesis ⟨cursor.slice + 1, 0⟩
            (offset + 1 - (slice.len - cursor.byte)) (within_zero rest)
            (by
              simp only [Nat.zero_add]
              omega)
          simp only [skipSlices, checkedSub_of_le ordered, ok_bind, advance,
            if_pos leaves, next, List.length_cons]
          rw [Nat.add_assoc, Nat.add_comm 1]

/-- The reader past the last slice of its bytes. -/
def atEnd (reader : BytesReader) : BytesReader :=
  ⟨reader.inner, ⟨reader.inner.chunks.length, 0⟩⟩

/-- Skipping more bytes than are left fails at the end of the bytes. -/
theorem skip_short {reader : BytesReader} (placed : reader.Placed)
    {offset : Nat} (short : reader.rest.length < offset) :
    skip offset reader = .err reader.atEnd := by
  have length : reader.rest.length =
      (contents reader.unread).length - reader.cursor.byte :=
    List.length_drop
  have bounded := placed.within.le_length
  have stop : reader.cursor.slice + reader.unread.length =
      reader.inner.chunks.length := by
    have sliceLe := placed.slice_le
    rw [unread, List.length_drop]
    omega
  have run := skipSlices_short reader.unread reader.cursor offset
    placed.within (by omega)
  rw [stop] at run
  simp only [skip, Cursor.get_bind, run, Cursor.lift_ok, Cursor.pure_bind,
    Cursor.set_bind, Bool.false_eq_true, if_false, Cursor.fail_apply]
  rfl

/-- The offset of the end of a slice is that of the start of the next. -/
theorem offsetAt_end {chunks : List Chunk} {slice : Nat} {chunk : Chunk}
    (found : chunks[slice]? = some chunk) :
    offsetAt chunks slice chunk.len = offsetAt chunks (slice + 1) 0 := by
  rw [offsetAt, offsetAt, List.take_add_one, found, Option.toList_some,
    contents_append, List.length_append]
  simp

theorem within_drop {chunks : List Chunk} {slice byte : Nat} {chunk : Chunk}
    (found : chunks[slice]? = some chunk) (bounded : byte ≤ chunk.len) :
    Within (chunks.drop slice) byte := by
  rw [List.drop_eq_getElem?_toList_append, found]
  exact bounded

theorem Within.le {slices : List Chunk} {byte less : Nat}
    (within : Within slices byte) (ordered : less ≤ byte) :
    Within slices less := by
  cases slices with
  | nil =>
      have start : byte = 0 := within
      exact Nat.le_zero.1 (start ▸ ordered)
  | cons slice rest => exact Nat.le_trans ordered within

theorem backtrackFrom_zero (chunks : List Chunk) (slice byte : Nat) :
    backtrackFrom chunks slice byte 0 = (true, ⟨slice, byte⟩) := by
  simp only [backtrackFrom]

/-- Where the loop of `backtrack` ends. -/
theorem backtrackFrom_spec (chunks : List Chunk) (slice byte offset : Nat)
    (sliceLe : slice ≤ chunks.length)
    (within : Within (chunks.drop slice) byte) :
    if offset ≤ offsetAt chunks slice byte then
      ∃ after, backtrackFrom chunks slice byte offset = (true, after) ∧
        after.slice ≤ slice ∧
        Within (chunks.drop after.slice) after.byte ∧
        offsetAt chunks after.slice after.byte =
          offsetAt chunks slice byte - offset
    else
      backtrackFrom chunks slice byte offset = (false, .zero) := by
  induction slice generalizing byte offset with
  | zero =>
      have start : ∀ byte, offsetAt chunks 0 byte = byte := by
        simp [offsetAt]
      rw [start]
      cases offset with
      | zero =>
          rw [if_pos (Nat.zero_le _), backtrackFrom_zero]
          exact ⟨_, rfl, Nat.le_refl _, within, start byte⟩
      | succ offset =>
          simp only [backtrackFrom]
          by_cases lands : byte ≤ offset + 1
          · rw [Nat.min_eq_right lands, if_pos (Nat.sub_self byte)]
            by_cases whole : offset + 1 ≤ byte
            · rw [if_pos whole, Nat.sub_eq_zero_of_le whole]
              refine ⟨.zero, rfl, Nat.le_refl _, within_zero _, ?_⟩
              simp [BytesPos.zero, start]
              omega
            · rw [if_neg whole, Prod.mk.injEq, beq_eq_false_iff_ne]
              exact ⟨by omega, rfl⟩
          · have room : offset + 1 ≤ byte := by omega
            rw [if_pos room, Nat.min_eq_left room,
              if_neg (by omega), Nat.sub_self]
            exact ⟨_, rfl, Nat.le_refl _, within.le (Nat.sub_le _ _),
              start _⟩
  | succ slice hypothesis =>
      cases offset with
      | zero =>
          rw [if_pos (Nat.zero_le _), backtrackFrom_zero]
          exact ⟨_, rfl, Nat.le_refl _, within, rfl⟩
      | succ offset =>
          simp only [backtrackFrom]
          by_cases lands : byte ≤ offset + 1
          · have found := List.getElem?_eq_getElem
              (l := chunks) (i := slice) (by omega)
            have before : offsetAt chunks (slice + 1) byte =
                offsetAt chunks slice chunks[slice].len + byte := by
              rw [offsetAt_end found]
              rfl
            have next := hypothesis chunks[slice].len (offset + 1 - byte)
              (by omega) (within_drop found (Nat.le_refl _))
            rw [Nat.min_eq_right lands, if_pos (Nat.sub_self byte), found,
              before]
            by_cases enough : offset + 1 - byte ≤
                offsetAt chunks slice chunks[slice].len
            · rw [if_pos enough] at next
              rcases next with ⟨after, run, sliceAfter, inside, equal⟩
              rw [if_pos (by omega)]
              exact ⟨after, run, by omega, inside, by omega⟩
            · rw [if_neg enough] at next
              rw [if_neg (by omega)]
              exact next
          · have room : offset + 1 ≤ offsetAt chunks (slice + 1) byte := by
              rw [offsetAt]
              omega
            rw [if_pos room, Nat.min_eq_left (by omega),
              if_neg (by omega), Nat.sub_self]
            refine ⟨_, rfl, Nat.le_refl _, within.le (Nat.sub_le _ _), ?_⟩
            simp only [offsetAt]
            omega

/-- Backtracking moves the offset back, or fails at the first byte. -/
theorem backtrack_placed {reader : BytesReader} (placed : reader.Placed)
    (count : Nat) :
    if count ≤ reader.offset then
      ∃ after, backtrack count reader = .ok () ⟨reader.inner, after⟩ ∧
        Placed ⟨reader.inner, after⟩ ∧
        offset ⟨reader.inner, after⟩ = reader.offset - count
    else
      backtrack count reader = .err reader.inner.reader := by
  have spec := backtrackFrom_spec reader.inner.chunks reader.cursor.slice
    reader.cursor.byte count placed.slice_le placed.within
  by_cases enough : count ≤ reader.offset
  · rw [if_pos enough]
    rw [offset] at enough
    rw [if_pos enough] at spec
    rcases spec with ⟨after, run, sliceLe, within, equal⟩
    refine ⟨after, ?_, ⟨Nat.le_trans sliceLe placed.slice_le, within⟩,
      equal⟩
    simp only [backtrack, Cursor.get_bind, run, Cursor.set_bind, if_true,
      Cursor.pure_apply]
  · rw [if_neg enough]
    rw [offset] at enough
    rw [if_neg enough] at spec
    simp only [backtrack, Cursor.get_bind, spec, Cursor.set_bind,
      Bool.false_eq_true, if_false, Cursor.fail_apply]
    rfl

theorem atEnd_offset (reader : BytesReader) :
    reader.atEnd.offset = reader.inner.len := by
  rw [offset, offsetAt, atEnd, List.take_length, Nat.add_zero,
    Bytes.length_contents]
  rfl

/-- Skipping available bytes moves the offset by their number. -/
theorem skip_enough {reader : BytesReader} (placed : reader.Placed)
    {count : Nat} (enough : count ≤ reader.rest.length) :
    ∃ after, skip count reader = .ok () ⟨reader.inner, after⟩ ∧
      Placed ⟨reader.inner, after⟩ ∧
      offset ⟨reader.inner, after⟩ = reader.offset + count := by
  rcases skip_placed placed count enough with ⟨after, passed, run, walked⟩
  exact ⟨after, run, (walked.placed placed).1,
    walked.offset_eq placed enough⟩

theorem checkedI64_of_le {value : Int} (low : i64Min ≤ value)
    (high : value ≤ i64Max) : checkedI64 value = .ok value :=
  if_pos ⟨low, high⟩

/-- Where a move by a signed offset ends, unless its negation overflows. -/
theorem advance_placed {reader : BytesReader} (placed : reader.Placed)
    {move : Int} (low : i64Min < move) :
    if reader.offset + move < 0 then
      advance move reader = .err reader.inner.reader
    else if reader.inner.len < reader.offset + move then
      advance move reader = .err reader.atEnd
    else
      ∃ after, advance move reader = .ok () ⟨reader.inner, after⟩ ∧
        Placed ⟨reader.inner, after⟩ ∧
        (offset ⟨reader.inner, after⟩ : Int) = reader.offset + move := by
  have total := placed.offset_add
  rw [advance]
  by_cases forward : 0 < move
  · rw [if_pos forward, if_neg (by omega)]
    by_cases beyond : (reader.inner.len : Int) < reader.offset + move
    · rw [if_pos beyond]
      exact skip_short placed (by omega)
    · rw [if_neg beyond]
      rcases skip_enough placed
        (show move.toNat ≤ reader.rest.length by omega) with
        ⟨after, run, kept, moved⟩
      exact ⟨after, run, kept, by omega⟩
  · have spec := backtrack_placed placed (-move).toNat
    have negated : checkedI64 (-move) = .ok (-move) := by
      apply checkedI64_of_le
      · simp only [i64Min]
        omega
      · simp only [i64Min] at low
        simp only [i64Max]
        omega
    rw [if_neg forward, negated, Cursor.lift_ok]
    change if _ then backtrack (-move).toNat reader = _ else
      if _ then backtrack (-move).toNat reader = _ else
        ∃ after, backtrack (-move).toNat reader = _ ∧ _
    by_cases below : (reader.offset : Int) + move < 0
    · rw [if_pos below]
      rw [if_neg (by omega)] at spec
      exact spec
    · rw [if_neg below, if_neg (by omega)]
      rw [if_pos (by omega)] at spec
      rcases spec with ⟨after, run, kept, moved⟩
      exact ⟨after, run, kept, by omega⟩

/-! ## What a seek does -/

theorem sumLens_eq (acc : Nat) (chunks : List Chunk) :
    sumLens acc chunks =
      if acc + (contents chunks).length ≤ usizeMax ∨ chunks = [] then
        .ok (acc + (contents chunks).length)
      else
        .error .arithmetic := by
  induction chunks generalizing acc with
  | nil => simp [sumLens]
  | cons slice rest hypothesis =>
      rw [sumLens, checkedAdd]
      simp only [contents_cons, List.length_append, Chunk.length_asSlice]
      by_cases fits : acc + slice.len ≤ usizeMax
      · rw [if_pos fits, ok_bind, hypothesis]
        by_cases last : rest = []
        · subst last
          simp [fits]
        · simp [last, Nat.add_assoc]
      · rw [if_neg fits, error_bind, if_neg]
        rintro (total | none)
        · omega
        · cases none

/-- The current position is the offset when it fits an `usize`. -/
theorem currentPos_eq (reader : BytesReader) :
    reader.currentPos =
      if reader.offset ≤ usizeMax then
        .ok reader.offset
      else
        .error .arithmetic := by
  rw [currentPos, sumLens_eq, Nat.zero_add, offset, offsetAt]
  by_cases fits :
      (contents (reader.inner.chunks.take reader.cursor.slice)).length ≤
        usizeMax
  · rw [if_pos (Or.inl fits), ok_bind, checkedAdd]
  · have solid : ¬ ((contents (reader.inner.chunks.take
        reader.cursor.slice)).length ≤ usizeMax ∨
          reader.inner.chunks.take reader.cursor.slice = []) := by
      rintro (small | none)
      · exact fits small
      · rw [none] at fits
        exact fits (Nat.zero_le _)
    rw [if_neg solid, error_bind, if_neg (by omega)]

/-- The target of a seek, over the integers. -/
def target (reader : BytesReader) : SeekFrom → Int
  | .start s => s.toNat
  | .current s => reader.offset + s.toInt
  | .fromEnd s => reader.inner.len + s.toInt

/-- The target is inside the bytes or at their end. -/
def InRange (reader : BytesReader) (pos : SeekFrom) : Prop :=
  0 ≤ reader.target pos ∧ reader.target pos ≤ reader.inner.len

instance (reader : BytesReader) (pos : SeekFrom) :
    Decidable (reader.InRange pos) :=
  inferInstanceAs (Decidable (_ ∧ _))

/--
What a seek must do: move to the target and return it when it is in range,
else return an error from the offset it started at.
-/
def Sought (reader : BytesReader) (pos : SeekFrom) :
    Except Fault (Except SeekError Nat × BytesReader) → Prop
  | .ok (.ok value, after) =>
      reader.InRange pos ∧ (value : Int) = reader.target pos ∧
        after.inner = reader.inner ∧ after.offset = value
  | .ok (.error _, after) =>
      ¬ reader.InRange pos ∧ after.inner = reader.inner ∧
        after.offset = reader.offset
  | .error _ => False

/--
How a move by `move` bytes ends for a seek: it leaves the range of `i64`,
arrives, or fails at one end of the bytes.
-/
inductive Landed (reader : BytesReader) (move : Int) :
    Except Fault (Except SeekError Nat × BytesReader) → Prop where
  | overflow
      (wide : move = i64Min ∨ i64Max < reader.offset + move ∧
        reader.offset + move ≤ reader.inner.len) :
      Landed reader move (.error .arithmetic)
  | moved (value : Nat) (after : BytesPos) (low : i64Min < move)
      (arrived : (value : Int) = reader.offset + move)
      (inside : value ≤ reader.inner.len)
      (narrow : (value : Int) ≤ i64Max)
      (kept : Placed ⟨reader.inner, after⟩)
      (there : offset ⟨reader.inner, after⟩ = value) :
      Landed reader move (.ok (.ok value, ⟨reader.inner, after⟩))
  | below (narrow : i64Min < move) (short : reader.offset + move < 0) :
      Landed reader move (.ok (.error .invalidInput, reader.inner.reader))
  | beyond (narrow : i64Min < move)
      (short : reader.inner.len < reader.offset + move) :
      Landed reader move (.ok (.error .invalidInput, reader.atEnd))

/-- A seek that computed its move without overflow lands. -/
theorem ioSeek_landed {reader : BytesReader} (placed : reader.Placed)
    {pos : SeekFrom} {move : Int} (near : (reader.offset : Int) ≤ i64Max)
    (offset : reader.seekOffset reader.offset pos = .ok move)
    (low : i64Min ≤ move) :
    Landed reader move (reader.ioSeek pos) := by
  have unsigned : reader.offset ≤ usizeMax := by
    simp only [i64Max] at near
    simp only [usizeMax]
    omega
  rw [ioSeek, currentPos_eq, if_pos unsigned, ok_bind, if_pos near, offset,
    ok_bind]
  rcases Int.lt_or_eq_of_le low with low | lowest
  · have spec := advance_placed placed low
    split at spec
    · rename_i below
      rw [spec]
      exact .below low below
    · split at spec
      · rename_i beyond
        rw [spec]
        exact .beyond low beyond
      · rename_i above inside
        rcases spec with ⟨after, run, kept, there⟩
        rw [run]
        simp only
        by_cases narrow : (reader.offset : Int) + move ≤ i64Max
        · rw [checkedI64_of_le (by simp only [i64Min]; omega) (by omega),
            ok_bind]
          have cast : castU64 (move + reader.offset) =
              (reader.offset + move).toNat := by
            rw [castU64, Int.add_comm, Int.emod_eq_of_lt (by omega)]
            simp only [i64Max] at narrow
            omega
          rw [cast]
          exact .moved _ after low (by omega) (by omega) (by omega) kept
            (by omega)
        · rw [checkedI64, if_neg (by omega)]
          exact .overflow (Or.inr ⟨by omega, by omega⟩)
  · have negated : checkedI64 (-move) = .error .arithmetic := by
      apply if_neg
      rw [← lowest]
      decide
    have run : advance move reader = .fault .arithmetic := by
      rw [advance, if_neg (by rw [← lowest]; decide), negated]
      rfl
    rw [run]
    exact .overflow (Or.inl lowest.symm)

end BytesReader

end Thubo
