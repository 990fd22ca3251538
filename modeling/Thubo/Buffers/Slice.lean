import Thubo.Buffers.Bytes

/-!
# The reader over a slice

The bytes left to read are one slice, and every read takes a prefix of it.
A chunk is copied out of the slice, so nothing distinguishes a contiguous
read from another.
-/

namespace Thubo

/-- A reader over a slice of bytes. -/
structure SliceReader where
  slice : List UInt8
deriving DecidableEq, Repr

namespace SliceReader

/-- The number of bytes left. -/
def remaining (reader : SliceReader) : Except Fault Nat :=
  .ok reader.slice.length

/-- Copy up to `into` bytes, and fail when there is none to copy. -/
def read (into : Nat) : Cursor SliceReader (List UInt8) := do
  let reader ← Cursor.get
  let len := min reader.slice.length into
  if len = 0 then
    Cursor.fail
  else
    Cursor.set ⟨reader.slice.drop len⟩
    return reader.slice.take len

/-- Copy exactly `into` bytes. -/
def readExact (into : Nat) : Cursor SliceReader (List UInt8) := do
  let reader ← Cursor.get
  if reader.slice.length < into then
    Cursor.fail
  else
    Cursor.set ⟨reader.slice.drop into⟩
    return reader.slice.take into

/-- Read one byte through a buffer of one byte. -/
def readU8 : Cursor SliceReader UInt8 := do
  let buf ← read 1
  return buf.headD 0

/-- Read `len` bytes into a new buffer, which is taken to be allocated. -/
def readChunk (len : Nat) : Cursor SliceReader Chunk := do
  let buffer ← readExact len
  return .ofBuf buffer

/-- Read `len` bytes and hand them over as one chunk. -/
def readChunks (len : Nat) : Cursor SliceReader (List Chunk) := do
  let chunk ← readChunk len
  return [chunk]

def readChunkContiguous (len : Nat) : Cursor SliceReader Chunk :=
  readChunk len

instance : Reader SliceReader where
  remaining := remaining
  readU8 := readU8
  readChunks := readChunks
  readChunkContiguous := readChunkContiguous

/-- The slice is what is left to read. -/
def flat : Presentation SliceReader UInt8 where
  valid _ := True
  rest := slice

theorem readU8_refines : flat.Refines Eq readU8 Parser.next := by
  rintro ⟨slice⟩ _
  cases slice with
  | nil => trivial
  | cons head rest =>
      have one : min (rest.length + 1) 1 = 1 := by omega
      have run : readU8 ⟨head :: rest⟩ = .ok head ⟨rest⟩ := by
        simp only [readU8, read, Cursor.bind_apply, Cursor.get,
          List.length_cons, one, Nat.one_ne_zero, if_false, Cursor.set]
        rfl
      rw [run]
      exact ⟨rfl, trivial, rfl⟩

/-- A chunk is read when so many bytes are left, else nothing is. -/
theorem readChunk_run (reader : SliceReader) (len : Nat) :
    readChunk len reader =
      if len ≤ reader.slice.length then
        .ok (.ofBuf (reader.slice.take len)) ⟨reader.slice.drop len⟩
      else
        .err reader := by
  by_cases enough : len ≤ reader.slice.length
  · have exact : readExact len reader =
        .ok (reader.slice.take len) ⟨reader.slice.drop len⟩ := by
      simp only [readExact, Cursor.get_bind,
        if_neg (Nat.not_lt.2 enough), Cursor.set_bind, Cursor.pure_apply]
    rw [readChunk, Cursor.bind_ok exact, if_pos enough]
    rfl
  · have short : readExact len reader = .err reader := by
      simp only [readExact, Cursor.get_bind,
        if_pos (Nat.lt_of_not_le enough), Cursor.fail_apply]
    rw [readChunk, Cursor.bind_err short, if_neg enough]

theorem readChunk_refines (len : Nat) :
    flat.Refines (fun chunk bytes => chunk.asSlice = bytes) (readChunk len)
      (Parser.takeExactly len) := by
  intro reader _
  rw [readChunk_run]
  change flat.Agrees _ _ (Parser.takeExactly len reader.slice)
  rw [Parser.takeExactly]
  by_cases enough : len ≤ reader.slice.length
  · rw [if_pos enough, if_pos enough]
    exact ⟨Chunk.asSlice_ofBuf _, trivial, rfl⟩
  · rw [if_neg enough, if_neg enough]
    trivial

theorem readChunks_refines (len : Nat) :
    flat.Refines (fun chunks bytes => contents chunks = bytes)
      (readChunks len) (Parser.takeExactly len) := by
  apply (readChunk_refines len).map
  intro chunk bytes same
  rw [contents_cons, contents_nil, List.append_nil, same]

theorem readChunkContiguous_attempts (len : Nat) :
    flat.Attempts (fun chunk bytes => chunk.asSlice = bytes)
      (readChunkContiguous len) (Parser.takeExactly len) := by
  intro reader valid
  have refines := readChunk_refines len reader valid
  rw [readChunkContiguous]
  rw [readChunk_run] at refines ⊢
  by_cases enough : len ≤ reader.slice.length
  · rw [if_pos enough] at refines ⊢
    exact refines
  · rw [if_neg enough]
    exact ⟨trivial, rfl⟩

end SliceReader

end Thubo
