import Thubo.Buffers.Reached
import Thubo.Buffers.Slice
import Thubo.Codec.Message

/-!
# Decoding does not depend on the chunks

A reader over nonempty chunks that has only been read forward decodes what
the reader over the flat slice of the same bytes decodes, and consumes as
many bytes.
-/

namespace Thubo

namespace BytesReader

/-- A position that reads of a collection of chunks reach. -/
inductive Forward (bytes : Bytes) : BytesReader → Prop where
  | start : Forward bytes bytes.reader
  | reads {reader after : BytesReader} {content : List UInt8}
      (reading : Reading) (earlier : Forward bytes reader)
      (run : reading.run reader = .ok content after) : Forward bytes after
  | readExact {reader after : BytesReader} {content : List UInt8}
      (into : Nat) (earlier : Forward bytes reader)
      (run : readExact into reader = .ok content after) :
      Forward bytes after
  | contiguous {reader after : BytesReader} {chunk : Chunk} (len : Nat)
      (earlier : Forward bytes reader)
      (run : readChunkContiguous len reader = .ok chunk after) :
      Forward bytes after
  | skip {reader after : BytesReader} (count : Nat)
      (earlier : Forward bytes reader)
      (run : skip count reader = .ok () after) : Forward bytes after

theorem Forward.settled {bytes : Bytes} (solid : bytes.NoEmptyChunk)
    {reader : BytesReader} (forward : Forward bytes reader) :
    reader.inner = bytes ∧ reader.Settled := by
  induction forward with
  | start => exact ⟨rfl, settled_reader solid⟩
  | reads reading earlier run hypothesis =>
      rcases hypothesis with ⟨inner, settled⟩
      rcases reading.walks settled.placed run with
        ⟨there, passed, rfl, _, walked⟩
      exact ⟨inner, walked.settled settled⟩
  | readExact into earlier run hypothesis =>
      rcases hypothesis with ⟨inner, settled⟩
      rcases readExact_walks settled.placed run with
        ⟨there, passed, rfl, _, walked⟩
      exact ⟨inner, walked.settled settled⟩
  | contiguous len earlier run hypothesis =>
      rcases hypothesis with ⟨inner, settled⟩
      rcases readChunkContiguous_placed settled.placed len with
        ⟨_, there, passed, here, _, _, _, walked⟩ | failed
      · rw [here] at run
        cases run
        exact ⟨inner, walked.settled settled⟩
      · rw [failed] at run
        cases run
  | skip count earlier run hypothesis =>
      rcases hypothesis with ⟨inner, settled⟩
      rcases skip_walks settled.placed run with
        ⟨there, passed, rfl, _, walked⟩
      exact ⟨inner, walked.settled settled⟩

/-- The offsets of the slices grow. -/
theorem offsetAt_le {chunks : List Chunk} {first second : Nat}
    (ordered : first ≤ second) (byte : Nat) :
    offsetAt chunks first 0 ≤ offsetAt chunks second byte := by
  have prefixed : (chunks.take first) <+: (chunks.take second) :=
    List.take_prefix_take_left ordered
  rcases prefixed with ⟨more, split⟩
  have lengths := congrArg (fun slices => (contents slices).length) split
  simp only [contents_append, List.length_append] at lengths
  rw [offsetAt, offsetAt]
  omega

/-- A strict position before a later slice has a smaller offset. -/
theorem offsetAt_lt {chunks : List Chunk} {first second byte other : Nat}
    (earlier : first < second) (bound : second ≤ chunks.length)
    (strict : StrictlyWithin (chunks.drop first) byte) :
    offsetAt chunks first byte < offsetAt chunks second other := by
  have found := List.getElem?_eq_getElem
    (l := chunks) (i := first) (by omega)
  rw [List.drop_eq_getElem_cons (by omega)] at strict
  have inside : byte < chunks[first].len := strict
  have next := offsetAt_end found
  have later : offsetAt chunks (first + 1) 0 ≤
      offsetAt chunks second other :=
    offsetAt_le earlier other
  rw [offsetAt] at next ⊢
  omega

/-- The offset of a settled reader determines its position. -/
theorem Settled.unique {inner : Bytes} {first second : BytesPos}
    (settled : Settled ⟨inner, first⟩) (settled' : Settled ⟨inner, second⟩)
    (same : offset ⟨inner, first⟩ = offset ⟨inner, second⟩) :
    first = second := by
  rcases first with ⟨slice, byte⟩
  rcases second with ⟨slice', byte'⟩
  have equal : offsetAt inner.chunks slice byte =
      offsetAt inner.chunks slice' byte' := same
  rcases Nat.lt_trichotomy slice slice' with less | rfl | more
  · have smaller : offsetAt inner.chunks slice byte <
        offsetAt inner.chunks slice' byte' :=
      offsetAt_lt less settled'.slice_le settled.strict
    omega
  · rw [offsetAt, offsetAt] at equal
    rw [Nat.add_left_cancel equal]
  · have smaller : offsetAt inner.chunks slice' byte' <
        offsetAt inner.chunks slice byte :=
      offsetAt_lt more settled.slice_le settled'.strict
    omega

/-! ## Decoders -/

/--
Decoding from the reader does what decoding from the flat slice at its offset
does: both fail, or both succeed with related values and leave the same
bytes, after as many have been consumed.
-/
def Unchunked {α β : Type} (reader : BytesReader) (relation : α → β → Prop)
    (program : Cursor BytesReader α) (flat : Cursor SliceReader β) :
    Prop :=
  let start : SliceReader := ⟨reader.inner.toVec.drop reader.offset⟩
  match program reader, flat start with
  | .ok value after, .ok value' left =>
      relation value value' ∧ after.inner = reader.inner ∧
        left.slice = reader.inner.toVec.drop after.offset ∧
        after.offset + left.slice.length =
          reader.offset + start.slice.length
  | .err _, .err _ => True
  | _, _ => False

/-- Programs that refine one parser decode alike. -/
theorem Settled.unchunked {α β γ : Type} {reader : BytesReader}
    (settled : reader.Settled) {relation : α → γ → Prop}
    {relation' : β → γ → Prop} {both : α → β → Prop}
    {program : Cursor BytesReader α} {flat : Cursor SliceReader β}
    {parser : Parser UInt8 γ}
    (refines : (BytesReader.settled reader.inner).Refines relation program
      parser)
    (refines' : SliceReader.flat.Refines relation' flat parser)
    (related : ∀ value value' result, relation value result →
      relation' value' result → both value value') :
    reader.Unchunked both program flat := by
  have alike : Presentation.Alike (BytesReader.settled reader.inner)
      SliceReader.flat both (program reader)
      (flat ⟨reader.inner.toVec.drop reader.offset⟩) :=
    refines.alike refines' related ⟨rfl, settled⟩ trivial
      reader.rest_eq_drop
  have before := settled.placed.offset_add
  simp only [Unchunked]
  cases run : program reader with
  | ok value after =>
      cases run' : flat ⟨reader.inner.toVec.drop reader.offset⟩ with
      | ok value' left =>
          rw [run, run'] at alike
          rcases alike with ⟨holds, ⟨inner, kept⟩, _, same⟩
          have total := kept.placed.offset_add
          have slice : left.slice = reader.inner.toVec.drop after.offset := by
            rw [← inner, ← after.rest_eq_drop]
            exact same.symm
          have length : left.slice.length = after.rest.length := by
            rw [after.rest_eq_drop, inner, slice]
          refine ⟨holds, inner, slice, ?_⟩
          rw [length, ← reader.rest_eq_drop, total, before, inner]
      | err left =>
          rw [run, run'] at alike
          exact alike
      | fault fault =>
          rw [run, run'] at alike
          exact alike
  | err after =>
      cases run' : flat ⟨reader.inner.toVec.drop reader.offset⟩ with
      | ok value' left =>
          rw [run, run'] at alike
          exact alike
      | err left => trivial
      | fault fault =>
          rw [run, run'] at alike
          exact alike
  | fault fault =>
      rw [run] at alike
      exact alike.elim

end BytesReader

/-- The integers narrower than 64 bits: a `u64`, truncated. -/
def readUint {R : Type} [Reader R] (bits : Nat) : Cursor R Nat := do
  let x ← readU64
  return x % 2 ^ bits

/-- The parser of `readUint`. -/
def Parser.uint (bits : Nat) : Parser UInt8 Nat := do
  let x ← Parser.u64
  return x % 2 ^ bits

theorem readUint_refines {R : Type} [Reader R]
    {presentation : Presentation R UInt8}
    (readsU8 : presentation.Refines Eq Reader.readU8 Parser.next)
    (bits : Nat) :
    presentation.Refines Eq (readUint bits) (Parser.uint bits) := by
  apply (readU64_refines readsU8).bind
  rintro x _ rfl
  exact Presentation.Refines.of_pure rfl

/-- Decoding a payload from a slice refines its parser. -/
theorem SliceReader.bytes_refines :
    SliceReader.flat.Refines (fun bytes content => bytes.toVec = content)
      Bytes.read Parser.payload := by
  apply (readU64_refines SliceReader.readU8_refines).bind
  rintro len _ rfl
  split
  · rename_i zero
    subst zero
    intro state valid
    exact ⟨rfl, valid, rfl⟩
  · apply Presentation.Refines.orElse
    · apply (SliceReader.readChunkContiguous_attempts len).map
      intro chunk content same
      rw [Bytes.toVec_single, same]
    · apply (SliceReader.readChunks_refines len).map
      intro chunks content same
      rw [Bytes.toVec_foldl_push, same]
      rfl

namespace BytesReader

/-- The shortcut and the fallback agree, and a failed shortcut is free. -/
theorem Settled.contiguous {reader : BytesReader}
    (settled : reader.Settled) (len : Nat) :
    (∃ chunk after chunks,
        readChunkContiguous len reader = .ok chunk after ∧
        readChunks len reader = .ok chunks after ∧
        contents chunks = chunk.asSlice) ∨
      readChunkContiguous len reader = .err reader := by
  rcases readChunkContiguous_placed settled.placed len with
    ⟨chunk, there, passed, run, enough, content, _, walked⟩ | failed
  · left
    have spec := readChunks_placed settled.placed len
    rw [if_pos enough] at spec
    rcases spec with ⟨chunks, here, count, run', content', walked', _⟩
    have same : there = here := by
      apply (walked.settled settled).unique (walked'.settled settled)
      rw [walked.offset_eq settled.placed enough,
        walked'.offset_eq settled.placed enough]
    subst same
    exact ⟨chunk, _, chunks, run, run', content'.trans content.symm⟩
  · exact Or.inr failed

end BytesReader

/--
From every position that forward reading reaches, integers, messages and
payloads decode as they do from the flat slice, and a contiguous read agrees
with the one over chunks or leaves the reader where it was.
-/
theorem decoding_unchunked {bytes : Bytes} (solid : bytes.NoEmptyChunk)
    {reader : BytesReader} (forward : BytesReader.Forward bytes reader) :
    reader.Unchunked Eq readU64 readU64 ∧
      (∀ bits, reader.Unchunked Eq (readUint bits) (readUint bits)) ∧
      reader.Unchunked Eq Message.read Message.read ∧
      reader.Unchunked (fun payload payload' =>
          payload.toVec = payload'.toVec) Bytes.read Bytes.read ∧
      ∀ len,
        (∃ chunk after chunks,
            BytesReader.readChunkContiguous len reader = .ok chunk after ∧
            BytesReader.readChunks len reader = .ok chunks after ∧
            contents chunks = chunk.asSlice) ∨
          BytesReader.readChunkContiguous len reader = .err reader := by
  rcases forward.settled solid with ⟨inner, settled⟩
  have lawful := BytesReader.settled_lawful reader.inner
  have equal : ∀ {α : Type} (value value' result : α), value = result →
      value' = result → value = value' :=
    fun _ _ _ first second => first.trans second.symm
  refine ⟨?_, ?_, ?_, ?_, settled.contiguous⟩
  · exact settled.unchunked (readU64_refines lawful.readU8)
      (readU64_refines SliceReader.readU8_refines) equal
  · intro bits
    exact settled.unchunked (readUint_refines lawful.readU8 bits)
      (readUint_refines SliceReader.readU8_refines bits) equal
  · exact settled.unchunked (Message.read_refines lawful.readU8)
      (Message.read_refines SliceReader.readU8_refines) equal
  · apply settled.unchunked (Bytes.read_refines lawful)
      SliceReader.bytes_refines
    intro payload payload' content holds same
    exact holds.1.trans same.symm

/-- A payload of three bytes in two chunks, after a byte has been read. -/
theorem decoding_unchunked_two :
    ∃ reader, BytesReader.Forward ⟨[.ofBuf [7, 3, 1], .ofBuf [2, 3]]⟩
        reader ∧
      reader.offset = 1 ∧
      reader.Unchunked (fun payload payload' =>
        payload.toVec = payload'.toVec) Bytes.read Bytes.read := by
  have solid :
      (Bytes.mk [.ofBuf [7, 3, 1], .ofBuf [2, 3]]).NoEmptyChunk := by
    unfold Bytes.NoEmptyChunk
    decide
  have forward : BytesReader.Forward ⟨[.ofBuf [7, 3, 1], .ofBuf [2, 3]]⟩
      ⟨_, ⟨0, 1⟩⟩ :=
    .reads .readU8 .start rfl
  exact ⟨_, forward, rfl, (decoding_unchunked solid forward).2.2.2.1⟩

end Thubo
