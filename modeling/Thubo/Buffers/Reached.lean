import Thubo.Buffers.Seek

/-!
# Readers that operations reach

The operations of a reader in any order, successful or not, and what they
have in common: the cursor stays inside the chunks.  A seek does what it must
under an exact condition on its argument and the offset it starts from, and a
read returns what a plain cursor over the flat bytes does unless the cursor
stands at the end of a chunk.
-/

namespace Thubo
namespace BytesReader

/-! ## Operations -/

/-- The reads of a number of bytes. -/
inductive Reading where
  | readU8
  | read (into : Nat)
  | readChunk (len : Nat)
  | readChunks (len : Nat)
deriving DecidableEq, Repr

/-- Run a read, for the bytes it returns. -/
def Reading.run : Reading → Cursor BytesReader (List UInt8)
  | .readU8 => do
      let byte ← BytesReader.readU8
      return [byte]
  | .read into => BytesReader.read into
  | .readChunk len => do
      let chunk ← BytesReader.readChunk len
      return chunk.asSlice
  | .readChunks len => do
      let chunks ← BytesReader.readChunks len
      return contents chunks

/-- What a plain cursor at `pos` reads of flat bytes. -/
def Reading.plain (data : List UInt8) (pos : Nat) :
    Reading → Option (List UInt8)
  | .readU8 => (data.drop pos).head?.map ([·])
  | .read into =>
      if (data.drop pos).take into = [] then
        none
      else
        some ((data.drop pos).take into)
  | .readChunk len | .readChunks len =>
      if len ≤ (data.drop pos).length then
        some ((data.drop pos).take len)
      else
        none

/-- The operations of a reader. -/
inductive Operation where
  | reads (reading : Reading)
  | readExact (into : Nat)
  | readChunkContiguous (len : Nat)
  | skip (offset : Nat)
  | backtrack (offset : Nat)
  | seek (pos : SeekFrom)
  /-- Return to a mark. -/
  | rewind (mark : BytesPos)
deriving DecidableEq

/-- What a successful operation returns. -/
inductive Returned where
  | bytes (content : List UInt8)
  | position (value : Nat)
  | moved
deriving DecidableEq, Repr

def Operation.run : Operation → Cursor BytesReader Returned
  | .reads reading => do
      let content ← reading.run
      return .bytes content
  | .readExact into => do
      let content ← BytesReader.readExact into
      return .bytes content
  | .readChunkContiguous len => do
      let chunk ← BytesReader.readChunkContiguous len
      return .bytes chunk.asSlice
  | .skip offset => do
      BytesReader.skip offset
      return .moved
  | .backtrack offset => do
      BytesReader.backtrack offset
      return .moved
  | .seek pos => fun reader =>
      match reader.ioSeek pos with
      | .ok (.ok value, after) => .ok (.position value) after
      | .ok (.error _, after) => .err after
      | .error fault => .fault fault
  | .rewind mark => fun reader =>
      match reader.seek mark with
      | (true, after) => .ok .moved after
      | (false, after) => .err after

/-- A position that operations reach, whether they succeed or fail. -/
inductive Reachable (bytes : Bytes) : BytesReader → Prop where
  | start : Reachable bytes bytes.reader
  | done {reader after : BytesReader} {returned : Returned}
      (operation : Operation) (earlier : Reachable bytes reader)
      (run : operation.run reader = .ok returned after) :
      Reachable bytes after
  | failed {reader after : BytesReader}
      (operation : Operation) (earlier : Reachable bytes reader)
      (run : operation.run reader = .err after) :
      Reachable bytes after

/-- The outcome leaves the cursor inside the chunks of the reader. -/
def Stays (inner : Bytes) {α : Type} : Outcome BytesReader α → Prop
  | .ok _ after => after.inner = inner ∧ after.Placed
  | .err after => after.inner = inner ∧ after.Placed
  | .fault _ => True

theorem Stays.bind {inner : Bytes} {α β : Type}
    {first : Cursor BytesReader α} {next : α → β} {reader : BytesReader}
    (stays : Stays inner (first reader)) :
    Stays inner ((first >>= fun value => pure (next value)) reader) := by
  rw [Cursor.bind_apply]
  cases run : first reader with
  | ok value after =>
      rw [run] at stays
      exact stays
  | err after =>
      rw [run] at stays
      exact stays
  | fault fault => trivial

theorem Walked.stays {reader : BytesReader} {after : BytesPos}
    {len passed : Nat} (placed : reader.Placed)
    (walked : Walked reader.unread reader.cursor after len passed) :
    BytesReader.inner ⟨reader.inner, after⟩ = reader.inner ∧
      Placed ⟨reader.inner, after⟩ :=
  ⟨rfl, (walked.placed placed).1⟩

theorem read_stays {reader : BytesReader} (placed : reader.Placed)
    (into : Nat) : Stays reader.inner (read into reader) := by
  rcases read_placed placed into with ⟨after, passed, walked, run⟩
  rw [run]
  split
  · exact walked.stays placed
  · exact walked.stays placed

/-- Reading one byte, at any position inside the chunks. -/
theorem readU8_placed {reader : BytesReader} (placed : reader.Placed) :
    (∃ slice byte more after passed, reader.unread = slice :: more ∧
        reader.cursor.byte < slice.len ∧
        readU8 reader = .ok byte ⟨reader.inner, after⟩ ∧
        reader.rest.head? = some byte ∧
        Walked reader.unread reader.cursor after 1 passed) ∨
      (readU8 reader = .err reader ∧
        ∀ slice ∈ reader.unread.head?, reader.cursor.byte = slice.len) := by
  have within := placed.within
  cases slices : reader.unread with
  | nil =>
      refine Or.inr ⟨?_, fun slice none => by cases none⟩
      simp only [readU8, Cursor.get_bind, getElem?_slice, slices,
        List.head?_nil, Cursor.ofOption_none, Cursor.fail_bind]
  | cons slice more =>
      rw [slices] at within
      have ordered : reader.cursor.byte ≤ slice.len := within
      rcases Nat.lt_or_eq_of_le ordered with inside | last
      · have inSlice : reader.cursor.byte < slice.asSlice.length := by
          simpa using inside
        have head : reader.rest.head? =
            some slice.asSlice[reader.cursor.byte] := by
          rw [rest_of_unread slices ordered,
            List.drop_eq_getElem_cons inSlice]
          rfl
        by_cases leaves : reader.cursor.byte + 1 = slice.len
        · refine Or.inl ⟨slice, _, more, ⟨reader.cursor.slice + 1, 0⟩, 1,
            rfl, inside, ?_, head, ?_⟩
          · simp only [readU8, Cursor.get_bind, getElem?_slice, slices,
              List.head?_cons, Cursor.ofOption_some, Cursor.pure_bind,
              List.getElem?_eq_getElem inSlice, if_pos leaves,
              Cursor.set_bind, Cursor.pure_apply]
          · have walked := Walked.cons reader.cursor ordered
              (Walked.refl more ⟨reader.cursor.slice + 1, 0⟩
                (within_zero more))
            have one : slice.len - reader.cursor.byte + 0 = 1 := by omega
            rwa [one] at walked
        · refine Or.inl ⟨slice, _, more,
            ⟨reader.cursor.slice, reader.cursor.byte + 1⟩, 0, rfl, inside,
            ?_, head, Walked.inside (by omega)⟩
          simp only [readU8, Cursor.get_bind, getElem?_slice, slices,
            List.head?_cons, Cursor.ofOption_some, Cursor.pure_bind,
            List.getElem?_eq_getElem inSlice, if_neg leaves,
            Cursor.set_bind, Cursor.pure_apply]
      · refine Or.inr ⟨?_, ?_⟩
        · have none : slice.asSlice[reader.cursor.byte]? = none := by
            rw [List.getElem?_eq_none_iff]
            simp [last]
          simp only [readU8, Cursor.get_bind, getElem?_slice, slices,
            List.head?_cons, Cursor.ofOption_some, Cursor.pure_bind, none,
            Cursor.ofOption_none, Cursor.fail_bind]
        · intro other first
          cases first
          exact last

/--
A contiguous read takes the bytes where it succeeds, and where it fails it
leaves the reader alone.
-/
theorem readChunkContiguous_placed {reader : BytesReader}
    (placed : reader.Placed) (len : Nat) :
    (∃ chunk after passed,
        readChunkContiguous len reader = .ok chunk ⟨reader.inner, after⟩ ∧
        len ≤ reader.rest.length ∧
        chunk.asSlice = reader.rest.take len ∧
        readChunk len reader = .ok chunk ⟨reader.inner, after⟩ ∧
        Walked reader.unread reader.cursor after len passed) ∨
      readChunkContiguous len reader = .err reader := by
  have within := placed.within
  have chunked := readChunk_placed placed len
  cases slices : reader.unread with
  | nil =>
      right
      simp only [readChunkContiguous, Cursor.get_bind, getElem?_slice,
        slices, List.head?_nil, Cursor.ofOption_none, Cursor.fail_bind]
  | cons slice more =>
      rw [slices] at within
      have ordered : reader.cursor.byte ≤ slice.len := within
      by_cases less : slice.len - reader.cursor.byte < len
      · right
        simp only [readChunkContiguous, Cursor.get_bind, getElem?_slice,
          slices, List.head?_cons, Cursor.ofOption_some, Cursor.pure_bind,
          checkedSub_of_le ordered, Cursor.lift_ok, if_pos less,
          Cursor.fail_apply]
      · have enough : len ≤ reader.rest.length := by
          rw [rest_of_unread slices ordered, List.length_append]
          simp
          omega
        rw [if_pos ⟨by simp [slices], enough⟩] at chunked
        rcases chunked with ⟨chunk, after, passed, run, content, walked⟩
        rw [slices] at walked
        refine Or.inl ⟨chunk, after, passed, ?_, enough, content, run,
          walked⟩
        rw [← run]
        simp only [readChunkContiguous, readChunk, Cursor.get_bind,
          getElem?_slice, slices, List.head?_cons, Cursor.ofOption_some,
          Cursor.pure_bind, checkedSub_of_le ordered, Cursor.lift_ok,
          if_neg less]
        by_cases equal : slice.len - reader.cursor.byte = len
        · rw [if_pos equal, if_pos equal]
        · rw [if_neg equal, if_neg equal]
          rcases slice.view_of_le reader.cursor.byte
            (reader.cursor.byte + len) (by omega) (by omega) with
            ⟨part, viewed, _, _⟩
          simp only [viewed, Cursor.lift_ok, Cursor.pure_bind,
            Cursor.ofOption_some, Cursor.set_bind]

theorem atEnd_placed (reader : BytesReader) : reader.atEnd.Placed :=
  ⟨Nat.le_refl _, by
    rw [unread, atEnd, List.drop_length]
    rfl⟩

theorem advance_stays {reader : BytesReader} (placed : reader.Placed)
    (count : Nat) :
    Stays reader.inner (skip count reader) ∧
      Stays reader.inner (backtrack count reader) := by
  constructor
  · by_cases enough : count ≤ reader.rest.length
    · rcases skip_enough placed enough with ⟨after, run, kept, _⟩
      rw [run]
      exact ⟨rfl, kept⟩
    · rw [skip_short placed (by omega)]
      exact ⟨rfl, reader.atEnd_placed⟩
  · have spec := backtrack_placed placed count
    split at spec
    · rcases spec with ⟨after, run, kept, _⟩
      rw [run]
      exact ⟨rfl, kept⟩
    · rw [spec]
      exact ⟨rfl, placed_reader _⟩

/-- The reader a seek leaves. -/
def Left (inner : Bytes) :
    Except Fault (Except SeekError Nat × BytesReader) → Prop
  | .ok (_, after) => after.inner = inner ∧ after.Placed
  | .error _ => True

theorem Landed.left {reader : BytesReader} {move : Int}
    {result : Except Fault (Except SeekError Nat × BytesReader)}
    (landed : Landed reader move result) : Left reader.inner result := by
  cases landed with
  | overflow wide => trivial
  | moved value after low arrived inside narrow kept there =>
      exact ⟨rfl, kept⟩
  | below narrow short => exact ⟨rfl, placed_reader _⟩
  | beyond narrow short => exact ⟨rfl, reader.atEnd_placed⟩

/-- A seek fails early, or it computes its move without overflow. -/
theorem ioSeek_cases {reader : BytesReader} (placed : reader.Placed)
    (pos : SeekFrom) :
    (∃ fault, reader.ioSeek pos = .error fault) ∨
      reader.ioSeek pos = .ok (.error .other, reader) ∨
      ∃ move, (reader.offset : Int) ≤ i64Max ∧
        reader.seekOffset reader.offset pos = .ok move ∧
        Landed reader move (reader.ioSeek pos) := by
  by_cases unsigned : reader.offset ≤ usizeMax
  · by_cases near : (reader.offset : Int) ≤ i64Max
    · cases offset : reader.seekOffset reader.offset pos with
      | error fault =>
          left
          refine ⟨fault, ?_⟩
          rw [ioSeek, currentPos_eq, if_pos unsigned, ok_bind, if_pos near,
            offset]
          rfl
      | ok move =>
          right
          right
          have low : i64Min ≤ move := by
            cases pos with
            | start s =>
                rw [seekOffset, checkedI64] at offset
                split at offset
                · rename_i bounds
                  cases offset
                  exact bounds.1
                · cases offset
            | current s =>
                cases offset
                exact s.le_toInt
            | fromEnd s =>
                simp only [seekOffset, sumLens_eq] at offset
                split at offset
                · rw [ok_bind, checkedI64] at offset
                  split at offset
                  · rw [ok_bind, checkedI64] at offset
                    split at offset
                    · rename_i bounds
                      cases offset
                      exact bounds.1
                    · cases offset
                  · cases offset
                · cases offset
          exact ⟨move, near, rfl, ioSeek_landed placed near offset low⟩
    · right
      left
      rw [ioSeek, currentPos_eq, if_pos unsigned, ok_bind, if_neg near]
      rfl
  · left
    refine ⟨.arithmetic, ?_⟩
    rw [ioSeek, currentPos_eq, if_neg unsigned]
    rfl

theorem ioSeek_left {reader : BytesReader} (placed : reader.Placed)
    (pos : SeekFrom) : Left reader.inner (reader.ioSeek pos) := by
  rcases ioSeek_cases placed pos with
    ⟨fault, run⟩ | run | ⟨move, near, offset, landed⟩
  · rw [run]
    trivial
  · rw [run]
    exact ⟨rfl, placed⟩
  · exact landed.left

/-- Every operation leaves the cursor inside the chunks. -/
theorem Operation.stays (operation : Operation) {reader : BytesReader}
    (placed : reader.Placed) :
    Stays reader.inner (operation.run reader) := by
  cases operation with
  | reads reading =>
      apply Stays.bind
      cases reading with
      | readU8 =>
          apply Stays.bind
          rcases readU8_placed placed with
            ⟨_, _, _, _, _, _, _, run, _, walked⟩ | ⟨run, _⟩
          · rw [run]
            exact walked.stays placed
          · rw [run]
            exact ⟨rfl, placed⟩
      | read into => exact read_stays placed into
      | readChunk len =>
          apply Stays.bind
          have spec := readChunk_placed placed len
          split at spec
          · rcases spec with ⟨_, _, _, run, _, walked⟩
            rw [run]
            exact walked.stays placed
          · rcases spec with ⟨_, _, _, run, _, walked⟩
            rw [run]
            exact walked.stays placed
      | readChunks len =>
          apply Stays.bind
          have spec := readChunks_placed placed len
          split at spec
          · rcases spec with ⟨_, _, _, run, _, walked, _⟩
            rw [run]
            exact walked.stays placed
          · rw [spec]
            exact ⟨rfl, placed⟩
  | readExact into =>
      apply Stays.bind
      rw [BytesReader.readExact, Cursor.bind_apply]
      have stays := read_stays placed into
      cases run : BytesReader.read into reader with
      | ok content after =>
          rw [run] at stays
          simp only
          split
          · exact stays
          · exact stays
      | err after =>
          rw [run] at stays
          exact stays
      | fault fault => trivial
  | readChunkContiguous len =>
      apply Stays.bind
      rcases readChunkContiguous_placed placed len with
        ⟨_, _, _, run, _, _, _, walked⟩ | run
      · rw [run]
        exact walked.stays placed
      · rw [run]
        exact ⟨rfl, placed⟩
  | skip offset => exact (advance_stays placed offset).1.bind
  | backtrack offset => exact (advance_stays placed offset).2.bind
  | seek pos =>
      have left := ioSeek_left placed pos
      simp only [run]
      split
      · rename_i result
        rw [result] at left
        exact left
      · rename_i result
        rw [result] at left
        exact left
      · trivial
  | rewind mark =>
      simp only [run, BytesReader.seek]
      cases found : reader.inner.chunks[mark.slice]? with
      | none => exact ⟨rfl, placed⟩
      | some slice =>
          by_cases inside : mark.byte ≤ slice.len
          · simp only [if_pos inside]
            have bound := (List.getElem?_eq_some_iff.1 found).1
            exact ⟨rfl, Nat.le_of_lt bound, within_drop found inside⟩
          · simp only [if_neg inside]
            exact ⟨rfl, placed⟩

/-- The cursor of a reachable reader is inside the chunks. -/
theorem Reachable.placed {bytes : Bytes} {reader : BytesReader}
    (reachable : Reachable bytes reader) :
    reader.inner = bytes ∧ reader.Placed := by
  induction reachable with
  | start => exact ⟨rfl, placed_reader bytes⟩
  | done operation earlier run hypothesis =>
      have stays := operation.stays hypothesis.2
      rw [run, hypothesis.1] at stays
      exact stays
  | failed operation earlier run hypothesis =>
      have stays := operation.stays hypothesis.2
      rw [run, hypothesis.1] at stays
      exact stays

/-! ## When a seek does what it must -/

/--
Whether a seek from this offset does what it must.  A target in range is
reached when it is an `i64`, and so is the length where it is added to.  A
target out of range is refused in place only from the end of the bytes it
runs into, and when neither the target nor its negation overflows.
-/
def Seekable (reader : BytesReader) (pos : SeekFrom) : Prop :=
  let target := reader.target pos
  let offset := reader.offset
  let len := reader.inner.len
  if i64Max < offset then
    offset ≤ usizeMax ∧ ¬ reader.InRange pos
  else
    match pos with
    | .start _ =>
        (reader.InRange pos ∧ target ≤ i64Max) ∨
          (len < target ∧ offset = len ∧ len < i64Max)
    | .current _ =>
        (reader.InRange pos ∧ target ≤ i64Max) ∨
          (target < 0 ∧ offset = 0 ∧ target ≠ i64Min) ∨
          (len < target ∧ offset = len)
    | .fromEnd _ =>
        (reader.InRange pos ∧ len ≤ i64Max) ∨
          (target < 0 ∧ offset = 0 ∧ target ≠ i64Min) ∨
          (len < target ∧ offset = len ∧ target ≤ i64Max) ∨
          -- such a length is cast to a negative number
          (len < target ∧ offset = 0 ∧ i64Max < len ∧ target ≤ usizeMax)

/-- What a landed seek must satisfy to have done what it must. -/
theorem Landed.sought {reader : BytesReader} {pos : SeekFrom}
    {move : Int}
    {result : Except Fault (Except SeekError Nat × BytesReader)}
    (landed : Landed reader move result) :
    Sought reader pos result ↔
      move ≠ i64Min ∧
        ((reader.offset + move < 0 ∧ ¬ reader.InRange pos ∧
            reader.offset = 0) ∨
          (reader.inner.len < reader.offset + move ∧
            ¬ reader.InRange pos ∧ reader.offset = reader.inner.len) ∨
          (0 ≤ reader.offset + move ∧
            reader.offset + move ≤ reader.inner.len ∧
            reader.offset + move ≤ i64Max ∧
            reader.target pos = reader.offset + move)) := by
  cases landed with
  | overflow wide =>
      have narrow : ¬ (move ≠ i64Min ∧
          (reader.offset + move < 0 ∨
            reader.inner.len < reader.offset + move ∨
            reader.offset + move ≤ i64Max)) := by
        simp only [i64Min, i64Max] at wide ⊢
        omega
      constructor
      · intro none
        exact none.elim
      · rintro ⟨low, below | beyond | inside⟩
        · exact narrow ⟨low, Or.inl below.1⟩
        · exact narrow ⟨low, Or.inr (Or.inl beyond.1)⟩
        · exact narrow ⟨low, Or.inr (Or.inr inside.2.2.1)⟩
  | moved value after low arrived inside narrow kept there =>
      simp only [Sought, there, InRange]
      constructor
      · rintro ⟨_, target, _⟩
        exact ⟨by omega, Or.inr (Or.inr ⟨by omega, by omega, by omega,
          by omega⟩)⟩
      · rintro ⟨_, below | beyond | ⟨_, _, _, target⟩⟩
        · omega
        · omega
        · exact ⟨⟨by omega, by omega⟩, by omega, trivial, trivial⟩
  | below narrow short =>
      simp only [Sought, offset_reader]
      constructor
      · rintro ⟨outside, _, start⟩
        exact ⟨by omega, Or.inl ⟨short, outside, start.symm⟩⟩
      · rintro ⟨_, below | beyond | inside⟩
        · exact ⟨below.2.1, rfl, below.2.2.symm⟩
        · omega
        · omega
  | beyond narrow short =>
      simp only [Sought, atEnd_offset]
      constructor
      · rintro ⟨outside, _, last⟩
        exact ⟨by omega, Or.inr (Or.inl ⟨short, outside, last.symm⟩)⟩
      · rintro ⟨_, below | beyond | inside⟩
        · omega
        · exact ⟨beyond.2.1, rfl, beyond.2.2.symm⟩
        · omega

/-- The checked sum of all lengths is the length that fits. -/
theorem sumLens_len (bytes : Bytes) :
    sumLens 0 bytes.chunks =
      if bytes.len ≤ usizeMax then
        .ok bytes.len
      else
        .error .arithmetic := by
  have total : (contents bytes.chunks).length = bytes.len :=
    bytes.length_toVec
  rw [sumLens_eq, Nat.zero_add, total]
  by_cases none : bytes.chunks = []
  · have empty : bytes.len = 0 := by simp [Bytes.len, none]
    rw [if_pos (Or.inr none), if_pos (by omega)]
  · simp only [none, or_false]

/-- The bytes left are the checked sum when all bytes fit. -/
theorem remaining_checked (reader : BytesReader)
    (fits : reader.inner.len ≤ usizeMax) :
    reader.remaining =
      if reader.cursor.slice ≤ reader.inner.chunks.length then do
        let left ← sumLens 0 reader.unread
        checkedSub left reader.cursor.byte
      else
        .error .bounds := by
  have total : (reader.unread.map Chunk.len).sum =
      (contents reader.unread).length :=
    (Bytes.length_contents reader.unread).symm
  have whole : (contents reader.inner.chunks).length = reader.inner.len :=
    reader.inner.length_toVec
  have less : (contents reader.unread).length ≤ usizeMax := by
    have split := List.take_append_drop reader.cursor.slice
      reader.inner.chunks
    rw [← split, contents_append, List.length_append] at whole
    rw [unread]
    omega
  rw [remaining, sumLens_eq, Nat.zero_add, if_pos (Or.inl less), ok_bind,
    total]

theorem castI64_cases (len : Nat) :
    ((len : Int) ≤ i64Max ∧ castI64 len = len) ∨
      (i64Max < (len : Int) ∧ castI64 len = len - 2 ^ 64) := by
  rw [castI64]
  split
  · rename_i small
    exact Or.inl ⟨small, rfl⟩
  · rename_i large
    exact Or.inr ⟨Int.not_le.1 large, rfl⟩

section Near

variable {reader : BytesReader} (placed : reader.Placed)
variable (near : (reader.offset : Int) ≤ i64Max)
include placed near

theorem sought_start (s : UInt64) :
    Sought reader (.start s) (reader.ioSeek (.start s)) ↔
      reader.Seekable (.start s) := by
  have bounded := placed.offset_le
  have small := s.toNat_lt
  have offset : reader.seekOffset reader.offset (.start s) =
      .ok (min (s.toNat : Int) i64Max - reader.offset) := by
    apply checkedI64_of_le
    · simp only [i64Min, i64Max] at near ⊢
      omega
    · simp only [i64Max] at near ⊢
      omega
  have low : i64Min < min (s.toNat : Int) i64Max - reader.offset := by
    simp only [i64Min, i64Max] at near ⊢
    omega
  rw [(ioSeek_landed placed near offset (by omega)).sought, Seekable,
    if_neg (Int.not_lt.2 near)]
  simp only [InRange, target, i64Min, i64Max] at near low ⊢
  omega

theorem sought_current (s : Int64) :
    Sought reader (.current s) (reader.ioSeek (.current s)) ↔
      reader.Seekable (.current s) := by
  have bounded := placed.offset_le
  have low : i64Min ≤ s.toInt := s.le_toInt
  have offset : reader.seekOffset reader.offset (.current s) =
      .ok s.toInt := rfl
  rw [(ioSeek_landed placed near offset low).sought, Seekable,
    if_neg (Int.not_lt.2 near)]
  simp only [InRange, target, i64Min, i64Max, and_true] at near low ⊢
  omega

theorem sought_fromEnd (s : Int64) :
    Sought reader (.fromEnd s) (reader.ioSeek (.fromEnd s)) ↔
      reader.Seekable (.fromEnd s) := by
  have bounded := placed.offset_le
  have low := s.le_toInt
  have high := s.toInt_lt
  have cast := castI64_cases reader.inner.len
  have unsigned : reader.offset ≤ usizeMax := by
    simp only [i64Max] at near
    simp only [usizeMax]
    omega
  -- the sum and the move, when nothing overflows on the way to them
  by_cases fits : reader.inner.len ≤ usizeMax ∧
      i64Min ≤ castI64 reader.inner.len + s.toInt ∧
      castI64 reader.inner.len + s.toInt ≤ i64Max ∧
      i64Min ≤ castI64 reader.inner.len + s.toInt - reader.offset
  · rcases fits with ⟨wide, lowSum, highSum, lowMove⟩
    have offset : reader.seekOffset reader.offset (.fromEnd s) =
        .ok (castI64 reader.inner.len + s.toInt - reader.offset) := by
      rw [seekOffset, sumLens_len, if_pos wide, ok_bind,
        checkedI64_of_le lowSum highSum, ok_bind,
        checkedI64_of_le lowMove (by omega)]
    rw [(ioSeek_landed placed near offset lowMove).sought, Seekable,
      if_neg (Int.not_lt.2 near)]
    generalize castI64 reader.inner.len = signed
      at cast lowSum highSum lowMove ⊢
    simp only [usizeMax, InRange, target, i64Min, i64Max]
      at near wide low high cast lowSum highSum lowMove ⊢
    omega
  · have fault : ∃ fault,
        reader.seekOffset reader.offset (.fromEnd s) = .error fault := by
      rw [seekOffset, sumLens_len]
      by_cases wide : reader.inner.len ≤ usizeMax
      · rw [if_pos wide, ok_bind, checkedI64]
        by_cases sum : i64Min ≤ castI64 reader.inner.len + s.toInt ∧
            castI64 reader.inner.len + s.toInt ≤ i64Max
        · rw [if_pos sum, ok_bind, checkedI64, if_neg (by omega)]
          exact ⟨_, rfl⟩
        · rw [if_neg sum]
          exact ⟨_, rfl⟩
      · rw [if_neg wide]
        exact ⟨_, rfl⟩
    rcases fault with ⟨fault, offset⟩
    have run : reader.ioSeek (.fromEnd s) = .error fault := by
      rw [ioSeek, currentPos_eq, if_pos unsigned, ok_bind, if_pos near,
        offset]
      rfl
    rw [run, Seekable, if_neg (Int.not_lt.2 near)]
    generalize castI64 reader.inner.len = signed at cast fits
    simp only [Sought, false_iff, usizeMax, InRange, target, i64Min,
      i64Max]
      at near low high cast fits ⊢
    omega

end Near

/--
A seek from a reachable position returns and reaches its target, or fails in
place, exactly where it is seekable.
-/
theorem sought_iff {bytes : Bytes} {reader : BytesReader}
    (reachable : Reachable bytes reader) (pos : SeekFrom) :
    Sought reader pos (reader.ioSeek pos) ↔ reader.Seekable pos := by
  have placed := reachable.placed.2
  by_cases near : (reader.offset : Int) ≤ i64Max
  · cases pos with
    | start s => exact sought_start placed near s
    | current s => exact sought_current placed near s
    | fromEnd s => exact sought_fromEnd placed near s
  · have far : reader.Seekable pos ↔
        reader.offset ≤ usizeMax ∧ ¬ reader.InRange pos :=
      iff_of_eq (if_pos (Int.not_le.1 near))
    rw [far, ioSeek, currentPos_eq]
    by_cases unsigned : reader.offset ≤ usizeMax
    · rw [if_pos unsigned, ok_bind, if_neg near]
      constructor
      · rintro ⟨outside, _⟩
        exact ⟨unsigned, outside⟩
      · rintro ⟨_, outside⟩
        exact ⟨outside, rfl, rfl⟩
    · rw [if_neg unsigned, error_bind]
      constructor
      · intro none
        exact none.elim
      · intro both
        exact absurd both.1 unsigned

/-- A seek to the end of two chunks, which is in range. -/
theorem sought_iff_end :
    Reachable ⟨[.ofBuf [1, 2], .ofBuf [3]]⟩
        (Bytes.reader ⟨[.ofBuf [1, 2], .ofBuf [3]]⟩) ∧
      Sought (Bytes.reader ⟨[.ofBuf [1, 2], .ofBuf [3]]⟩) (.fromEnd 0)
        ((Bytes.reader ⟨[.ofBuf [1, 2], .ofBuf [3]]⟩).ioSeek
          (.fromEnd 0)) :=
  ⟨.start, (sought_iff .start (.fromEnd 0)).2 (Or.inl (by decide))⟩

/-- A seek before the first byte fails, but moves the reader there. -/
theorem failed_seek_moves :
    ∃ reader, Reachable ⟨[.ofBuf [1, 2]]⟩ reader ∧ reader.offset = 1 ∧
      ¬ reader.InRange (.current (-5)) ∧
      ∃ after, reader.ioSeek (.current (-5)) =
          .ok (.error .invalidInput, after) ∧ after.offset = 0 := by
  refine ⟨⟨⟨[.ofBuf [1, 2]]⟩, ⟨0, 1⟩⟩,
    .done (.reads .readU8) .start rfl, rfl, by decide, _, rfl, rfl⟩

/-! ## When a read returns what a plain cursor does -/

/-- The number of bytes a successful read consumes. -/
def Reading.count (left : Nat) : Reading → Nat
  | .readU8 => 1
  | .read into => min into left
  | .readChunk len | .readChunks len => len

/-- Where a plain cursor at `pos` is after a successful operation. -/
def Operation.position (bytes : Bytes) (pos : Nat) (returned : Returned) :
    Operation → Nat
  | .reads reading => pos + reading.count (bytes.len - pos)
  | .readExact into => pos + into
  | .readChunkContiguous len => pos + len
  | .skip offset => pos + offset
  | .backtrack offset => pos - offset
  | .seek _ =>
      match returned with
      | .position value => value
      | _ => pos
  | .rewind mark => offsetAt bytes.chunks mark.slice mark.byte

/--
A reader after a run of successful operations, and the offset of a plain
cursor over the same bytes after the same operations.
-/
inductive Moved (bytes : Bytes) : BytesReader → Nat → Prop where
  | start : Moved bytes bytes.reader 0
  | step {reader after : BytesReader} {pos : Nat} {returned : Returned}
      (operation : Operation) (earlier : Moved bytes reader pos)
      (run : operation.run reader = .ok returned after) :
      Moved bytes after (operation.position bytes pos returned)

/-- The read does what it does on a plain cursor at `pos`. -/
def Reading.Agrees (reading : Reading) (reader : BytesReader)
    (pos : Nat) : Prop :=
  match reading.run reader, reading.plain reader.inner.toVec pos with
  | .ok content after, some expected =>
      content = expected ∧ after.offset = pos + expected.length
  | .err _, none => True
  | _, _ => False

/--
The cursor is where the read does not miss bytes: a single byte is not read
from the end of a chunk that another one follows, nor an empty chunk from
past the last one.
-/
def Reading.Clear (reader : BytesReader) : Reading → Prop
  | .readU8 =>
      ∀ slice more, reader.unread = slice :: more → more ≠ [] →
        reader.cursor.byte ≠ slice.len
  | .readChunk len => len = 0 → reader.unread ≠ []
  | _ => True

/-- A successful walk agrees with the plain cursor. -/
theorem Walked.agrees {reader : BytesReader} {after : BytesPos}
    {len passed : Nat} {content : List UInt8} (placed : reader.Placed)
    (walked : Walked reader.unread reader.cursor after len passed)
    (enough : len ≤ reader.rest.length)
    (equal : content = reader.rest.take len) :
    offset ⟨reader.inner, after⟩ = reader.offset + content.length := by
  rw [walked.offset_eq placed enough, equal, List.length_take,
    Nat.min_eq_left enough]

theorem readU8_agrees_iff {reader : BytesReader} (placed : reader.Placed)
    (solid : reader.inner.NoEmptyChunk) :
    Reading.readU8.Agrees reader reader.offset ↔
      Reading.readU8.Clear reader := by
  have same : reader.inner.toVec.drop reader.offset = reader.rest :=
    reader.rest_eq_drop.symm
  rcases readU8_placed placed with
    ⟨slice, byte, more, after, passed, slices, inside, run, head, walked⟩ |
    ⟨run, atEnd⟩
  · have enough : 1 ≤ reader.rest.length := by
      cases rest : reader.rest with
      | nil =>
          rw [rest] at head
          cases head
      | cons first others => simp
    constructor
    · intro _ other others found _
      rw [slices] at found
      cases found
      omega
    · intro _
      have whole : Reading.readU8.run reader =
          .ok [byte] ⟨reader.inner, after⟩ := by
        rw [Reading.run, Cursor.bind_ok run]
        rfl
      rw [Reading.Agrees, whole, Reading.plain, same, head]
      exact ⟨rfl, walked.offset_eq placed enough⟩
  · have whole : Reading.readU8.run reader = .err reader :=
      Cursor.bind_err run
    rw [Reading.Agrees, whole, Reading.plain, same]
    cases slices : reader.unread with
    | nil =>
        have nothing : reader.rest = [] := by
          rw [rest, slices, contents_nil, List.drop_nil]
        rw [nothing]
        constructor
        · intro _ slice more found
          rw [slices] at found
          cases found
        · intro _
          trivial
    | cons slice more =>
        rw [slices] at atEnd
        have last : reader.cursor.byte = slice.len := atEnd slice rfl
        have left : reader.rest = contents more := by
          rw [rest_of_unread slices (Nat.le_of_eq last), last,
            List.drop_of_length_le (by simp), List.nil_append]
        cases more with
        | nil =>
            rw [left]
            constructor
            · intro _ other others found nonempty
              rw [slices] at found
              cases found
              exact absurd rfl nonempty
            · intro _
              trivial
        | cons next others =>
            have positive : 0 < next.asSlice.length := by
              rw [Chunk.length_asSlice]
              apply solid_unread solid
              rw [slices]
              exact List.mem_cons_of_mem _ (List.mem_cons_self ..)
            rcases List.exists_cons_of_length_pos positive with
              ⟨byte, bytes, content⟩
            rw [left, contents_cons, content]
            constructor
            · intro none
              exact none.elim
            · intro clear
              exact absurd last
                (clear slice (next :: others) slices (by simp))

theorem read_agrees {reader : BytesReader} (placed : reader.Placed)
    (into : Nat) : (Reading.read into).Agrees reader reader.offset := by
  rcases read_placed placed into with ⟨after, passed, walked, run⟩
  rw [Reading.Agrees, Reading.run, run, Reading.plain,
    ← reader.rest_eq_drop]
  by_cases none : reader.rest.take into = []
  · rw [if_pos none, if_pos none]
    trivial
  · rw [if_neg none, if_neg none]
    refine ⟨rfl, ?_⟩
    apply walked.offset_eq placed
    rw [List.length_take]
    omega

theorem readChunk_agrees_iff {reader : BytesReader}
    (placed : reader.Placed) (len : Nat) :
    (Reading.readChunk len).Agrees reader reader.offset ↔
      (Reading.readChunk len).Clear reader := by
  have spec := readChunk_placed placed len
  rw [Reading.Agrees, Reading.plain, ← reader.rest_eq_drop]
  split at spec
  · rename_i both
    rcases spec with ⟨chunk, after, passed, run, content, walked⟩
    have whole : (Reading.readChunk len).run reader =
        .ok chunk.asSlice ⟨reader.inner, after⟩ := by
      rw [Reading.run, Cursor.bind_ok run]
      rfl
    rw [whole, if_pos both.2]
    constructor
    · intro _ _
      exact both.1
    · intro _
      refine ⟨content, ?_⟩
      rw [← content]
      exact walked.agrees placed both.2 content
  · rename_i short
    rcases spec with ⟨after, count, passed, run, _, _⟩
    have whole : (Reading.readChunk len).run reader =
        .err ⟨reader.inner, after⟩ := Cursor.bind_err run
    rw [whole]
    by_cases enough : len ≤ reader.rest.length
    · rw [if_pos enough]
      have last : reader.unread = [] :=
        Classical.not_not.1 fun more => short ⟨more, enough⟩
      have none : len = 0 := by
        rw [rest, last, contents_nil, List.drop_nil] at enough
        exact Nat.le_zero.1 enough
      constructor
      · intro impossible
        exact impossible.elim
      · intro clear
        exact absurd last (clear none)
    · rw [if_neg enough]
      constructor
      · intro _ none
        omega
      · intro _
        trivial

theorem readChunks_agrees {reader : BytesReader} (placed : reader.Placed)
    (len : Nat) : (Reading.readChunks len).Agrees reader reader.offset := by
  have spec := readChunks_placed placed len
  rw [Reading.Agrees, Reading.plain, ← reader.rest_eq_drop]
  split at spec
  · rename_i enough
    rcases spec with ⟨chunks, after, passed, run, content, walked, _⟩
    have whole : (Reading.readChunks len).run reader =
        .ok (contents chunks) ⟨reader.inner, after⟩ := by
      rw [Reading.run, Cursor.bind_ok run]
      rfl
    rw [whole, if_pos enough]
    refine ⟨content, ?_⟩
    rw [← content]
    exact walked.agrees placed enough content
  · rename_i short
    have whole : (Reading.readChunks len).run reader = .err reader :=
      Cursor.bind_err spec
    rw [whole, if_neg short]
    trivial

/-- A read agrees with the plain cursor exactly from a clear position. -/
theorem Reading.agrees_iff (reading : Reading) {reader : BytesReader}
    (placed : reader.Placed) (solid : reader.inner.NoEmptyChunk) :
    reading.Agrees reader reader.offset ↔ reading.Clear reader := by
  cases reading with
  | readU8 => exact readU8_agrees_iff placed solid
  | read into => exact iff_of_true (read_agrees placed into) trivial
  | readChunk len => exact readChunk_agrees_iff placed len
  | readChunks len => exact iff_of_true (readChunks_agrees placed len) trivial

/-- The value a successful program returns through a pure step. -/
theorem run_of_map {α β : Type} {first : Cursor BytesReader α}
    {next : α → β} {reader after : BytesReader} {value : β}
    (run : (first >>= fun result => pure (next result)) reader =
      .ok value after) :
    ∃ result, first reader = .ok result after ∧ value = next result := by
  rw [Cursor.bind_apply] at run
  cases ran : first reader with
  | ok result between =>
      rw [ran] at run
      cases run
      exact ⟨result, rfl, rfl⟩
  | err between =>
      rw [ran] at run
      cases run
  | fault fault =>
      rw [ran] at run
      cases run

/-- A successful read walks over the bytes it consumes. -/
theorem Reading.walks (reading : Reading) {reader after : BytesReader}
    {content : List UInt8} (placed : reader.Placed)
    (run : reading.run reader = .ok content after) :
    ∃ there passed, after = ⟨reader.inner, there⟩ ∧
      reading.count reader.rest.length ≤ reader.rest.length ∧
      Walked reader.unread reader.cursor there
        (reading.count reader.rest.length) passed := by
  cases reading with
  | readU8 =>
      rcases run_of_map run with ⟨byte, ran, rfl⟩
      rcases readU8_placed placed with
        ⟨slice, next, more, there, passed, slices, inside, here, head,
          walked⟩ | ⟨failed, _⟩
      · rw [here] at ran
        cases ran
        refine ⟨there, passed, rfl, ?_, walked⟩
        cases rest : reader.rest with
        | nil =>
            rw [rest] at head
            cases head
        | cons first others => exact Nat.succ_le_succ (Nat.zero_le _)
      · rw [failed] at ran
        cases ran
  | read into =>
      rcases read_placed placed into with ⟨there, passed, walked, here⟩
      have ran : BytesReader.read into reader = .ok content after := run
      rw [here] at ran
      rw [List.length_take] at walked
      split at ran
      · cases ran
      · cases ran
        exact ⟨there, passed, rfl, Nat.min_le_right _ _, walked⟩
  | readChunk len =>
      rcases run_of_map run with ⟨chunk, ran, rfl⟩
      have spec := readChunk_placed placed len
      split at spec
      · rename_i both
        rcases spec with ⟨part, there, passed, here, _, walked⟩
        rw [here] at ran
        cases ran
        exact ⟨there, passed, rfl, both.2, walked⟩
      · rcases spec with ⟨there, count, passed, failed, _⟩
        rw [failed] at ran
        cases ran
  | readChunks len =>
      rcases run_of_map run with ⟨chunks, ran, rfl⟩
      have spec := readChunks_placed placed len
      split at spec
      · rename_i enough
        rcases spec with ⟨parts, there, passed, here, _, walked, _⟩
        rw [here] at ran
        cases ran
        exact ⟨there, passed, rfl, enough, walked⟩
      · rw [spec] at ran
        cases ran

theorem readExact_walks {reader after : BytesReader} {into : Nat}
    {content : List UInt8} (placed : reader.Placed)
    (run : BytesReader.readExact into reader = .ok content after) :
    ∃ there passed, after = ⟨reader.inner, there⟩ ∧
      into ≤ reader.rest.length ∧
      Walked reader.unread reader.cursor there into passed := by
  by_cases none : into = 0
  · subst none
    rw [BytesReader.readExact, Cursor.bind_apply] at run
    rcases read_placed placed 0 with ⟨there, passed, _, here⟩
    rw [here, if_pos List.take_zero] at run
    cases run
  · rcases readExact_placed placed (Nat.pos_of_ne_zero none) with
      ⟨there, passed, walked, here⟩
    rw [here] at run
    split at run
    · rename_i enough
      cases run
      rw [List.length_take, Nat.min_eq_left enough] at walked
      exact ⟨there, passed, rfl, enough, walked⟩
    · cases run

theorem skip_walks {reader after : BytesReader} {count : Nat}
    (placed : reader.Placed)
    (run : BytesReader.skip count reader = .ok () after) :
    ∃ there passed, after = ⟨reader.inner, there⟩ ∧
      count ≤ reader.rest.length ∧
      Walked reader.unread reader.cursor there count passed := by
  by_cases enough : count ≤ reader.rest.length
  · rcases skip_placed placed count enough with
      ⟨there, passed, here, walked⟩
    rw [here] at run
    cases run
    exact ⟨there, passed, rfl, enough, walked⟩
  · rw [skip_short placed (by omega)] at run
    cases run

/-- A seek returns the offset it moved to. -/
theorem Landed.returns {reader : BytesReader} {move : Int}
    {value : Nat} {after : BytesReader}
    (landed : Landed reader move (.ok (.ok value, after))) :
    after.offset = value := by
  cases landed with
  | moved value after low arrived inside narrow kept there => exact there

/-- A successful operation moves the reader like a plain cursor. -/
theorem Operation.moves (operation : Operation)
    {reader after : BytesReader} {returned : Returned}
    (placed : reader.Placed)
    (run : operation.run reader = .ok returned after) :
    after.offset =
      operation.position reader.inner reader.offset returned := by
  cases operation with
  | reads reading =>
      rcases run_of_map run with ⟨content, ran, rfl⟩
      rcases reading.walks placed ran with
        ⟨there, passed, rfl, enough, walked⟩
      have left : reader.rest.length = reader.inner.len - reader.offset := by
        have total := placed.offset_add
        omega
      rw [walked.offset_eq placed enough, left]
      rfl
  | readExact into =>
      rcases run_of_map run with ⟨content, ran, rfl⟩
      rcases readExact_walks placed ran with
        ⟨there, passed, rfl, enough, walked⟩
      exact walked.offset_eq placed enough
  | readChunkContiguous len =>
      rcases run_of_map run with ⟨chunk, ran, rfl⟩
      rcases readChunkContiguous_placed placed len with
        ⟨part, there, passed, here, enough, _, _, walked⟩ | failed
      · rw [here] at ran
        cases ran
        exact walked.offset_eq placed enough
      · rw [failed] at ran
        cases ran
  | skip count =>
      rcases run_of_map run with ⟨_, ran, rfl⟩
      rcases skip_walks placed ran with
        ⟨there, passed, rfl, enough, walked⟩
      exact walked.offset_eq placed enough
  | backtrack count =>
      rcases run_of_map run with ⟨_, ran, rfl⟩
      have spec := backtrack_placed placed count
      split at spec
      · rcases spec with ⟨there, here, _, moved⟩
        rw [here] at ran
        cases ran
        exact moved
      · rw [spec] at ran
        cases ran
  | seek pos =>
      simp only [Operation.run] at run
      rcases ioSeek_cases placed pos with
        ⟨fault, ran⟩ | ran | ⟨move, near, offset, landed⟩
      · rw [ran] at run
        cases run
      · rw [ran] at run
        cases run
      · split at run
        · rename_i value there ran
          cases run
          rw [ran] at landed
          exact landed.returns
        · cases run
        · cases run
  | rewind mark =>
      simp only [Operation.run, BytesReader.seek] at run
      cases found : reader.inner.chunks[mark.slice]? with
      | none =>
          rw [found] at run
          cases run
      | some slice =>
          rw [found] at run
          by_cases inside : mark.byte ≤ slice.len
          · simp only [if_pos inside] at run
            cases run
            rfl
          · simp only [if_neg inside] at run
            cases run

/-- The reader and the plain cursor are at the same offset. -/
theorem Moved.reached {bytes : Bytes} {reader : BytesReader} {pos : Nat}
    (moved : Moved bytes reader pos) :
    reader.inner = bytes ∧ reader.Placed ∧ reader.offset = pos := by
  induction moved with
  | start => exact ⟨rfl, placed_reader bytes, offset_reader bytes⟩
  | step operation earlier run hypothesis =>
      rcases hypothesis with ⟨inner, placed, equal⟩
      have stays := operation.stays placed
      have moves := operation.moves placed run
      rw [run, inner] at stays
      rw [inner, equal] at moves
      exact ⟨stays.1, stays.2, moves⟩

/--
After any run of successful operations over nonempty chunks, the reader is at
the offset of a plain cursor, and a read agrees with that cursor exactly when
it starts from a clear position.
-/
theorem agrees_of_moved {bytes : Bytes} (solid : bytes.NoEmptyChunk)
    {reader : BytesReader} {pos : Nat} (moved : Moved bytes reader pos)
    (reading : Reading) :
    reader.offset = pos ∧
      (reading.Agrees reader pos ↔ reading.Clear reader) := by
  rcases moved.reached with ⟨inner, placed, rfl⟩
  refine ⟨rfl, reading.agrees_iff placed ?_⟩
  rw [inner]
  exact solid

/-- A chunk read after a byte of two one-byte chunks. -/
theorem agrees_of_moved_two :
    ∃ reader, Moved ⟨[.ofBuf [1], .ofBuf [2]]⟩ reader 1 ∧
      (reader.offset = 1 ∧
        ((Reading.readChunk 1).Agrees reader 1 ↔
          (Reading.readChunk 1).Clear reader)) ∧
      (Reading.readChunk 1).Clear reader := by
  have solid : (Bytes.mk [.ofBuf [1], .ofBuf [2]]).NoEmptyChunk := by
    unfold Bytes.NoEmptyChunk
    decide
  have moved : Moved ⟨[.ofBuf [1], .ofBuf [2]]⟩ ⟨_, ⟨1, 0⟩⟩ 1 :=
    .step (.reads .readU8) .start rfl
  exact ⟨_, moved, agrees_of_moved solid moved (.readChunk 1), by
    intro none
    cases none⟩

/-- After backtracking to a chunk boundary the next byte is not read. -/
theorem backtrack_misses_byte :
    ∃ reader, Moved ⟨[.ofBuf [1], .ofBuf [2]]⟩ reader 1 ∧
      reader.inner.toVec.drop 1 = [2] ∧
      ¬ Reading.readU8.Agrees reader 1 := by
  have moved : Moved ⟨[.ofBuf [1], .ofBuf [2]]⟩ ⟨_, ⟨0, 1⟩⟩ 1 :=
    .step (.backtrack 1)
      (.step (.reads .readU8) (.step (.reads .readU8) .start rfl) rfl) rfl
  exact ⟨_, moved, rfl, fun agrees => agrees⟩

end BytesReader

end Thubo
