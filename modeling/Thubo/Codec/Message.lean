import Thubo.Protocol
import Thubo.Codec.Vle

/-!
# Codecs of headers and payloads

Every reader comes with the parser on plain bytes that it refines, and every
writer with the bytes it writes.  The round trips are then statements about
parsers and bytes alone.
-/

namespace Thubo

/-- What the decoders rely on in a reader. -/
structure LawfulReader (R : Type) [Reader R]
    (presentation : Presentation R UInt8) : Prop where
  readU8 : presentation.Refines Eq Reader.readU8 Parser.next
  readChunks (len : Nat) :
    presentation.Refines
      (fun chunks bytes =>
        contents chunks = bytes ∧ ∀ chunk ∈ chunks, 0 < chunk.len)
      (Reader.readChunks len) (Parser.takeExactly len)
  readChunkContiguous {len : Nat} (nonzero : 0 < len) :
    presentation.Attempts
      (fun chunk bytes => chunk.asSlice = bytes ∧ 0 < chunk.len)
      (Reader.readChunkContiguous len) (Parser.takeExactly len)

theorem BytesReader.settled_lawful (inner : Bytes) :
    LawfulReader BytesReader (BytesReader.settled inner) where
  readU8 := readU8_refines inner
  readChunks := readChunks_refines inner
  readChunkContiguous := readChunkContiguous_attempts inner

/-! ## Sequence numbers -/

namespace SeqNum

def wLen (seqNum : SeqNum) : Nat :=
  vleLen seqNum.get

def write {W : Type} [Writer W] (seqNum : SeqNum) : Cursor W Unit :=
  writeU64 seqNum.get

def read {R : Type} [Reader R] : Cursor R SeqNum := do
  let x ← readU32
  return new x

/-- The bytes of a sequence number. -/
def bytes (seqNum : SeqNum) : List UInt8 :=
  vleBytes seqNum.get

theorem get_lt (seqNum : SeqNum) : seqNum.get < 2 ^ 28 :=
  seqNum.raw_lt

theorem get_lt_u64 (seqNum : SeqNum) : seqNum.get < 2 ^ 64 :=
  Nat.lt_trans seqNum.raw_lt (by decide)

theorem write_writes (seqNum : SeqNum) :
    Writes seqNum.write seqNum.bytes :=
  writeU64_writes seqNum.get_lt_u64

theorem length_bytes (seqNum : SeqNum) :
    seqNum.bytes.length = seqNum.wLen :=
  length_vleBytes seqNum.get_lt_u64

/-- A sequence number takes at most four bytes. -/
theorem wLen_le (seqNum : SeqNum) : seqNum.wLen ≤ 4 := by
  have bounded := seqNum.get_lt
  rw [wLen, vleLen_eq seqNum.get_lt_u64]
  grind

end SeqNum

/-- The parser of sequence numbers. -/
def Parser.seqNum : Parser UInt8 SeqNum := do
  let x ← Parser.u32
  return SeqNum.new x

@[simp]
theorem Parser.seqNum_bytes (seqNum : SeqNum) (rest : List UInt8) :
    Parser.seqNum (seqNum.bytes ++ rest) = some (seqNum, rest) := by
  have bounded : seqNum.get < 2 ^ 32 :=
    Nat.lt_trans seqNum.raw_lt (by decide)
  rw [Parser.seqNum, SeqNum.bytes,
    Parser.bind_some (u32_vleBytes bounded rest), SeqNum.new_get]
  rfl

/-! ## Headers -/

namespace MessageHeader

def wLen (message : MessageHeader) : Nat :=
  1 + message.seqNum.wLen

def write {W : Type} [Writer W] (message : MessageHeader) :
    Cursor W Unit := do
  Writer.writeU8 message.header
  message.seqNum.write

def read {R : Type} [Reader R] : Cursor R MessageHeader := do
  let header ← Reader.readU8
  let seqNum ← SeqNum.read
  return ⟨header, seqNum⟩

def bytes (message : MessageHeader) : List UInt8 :=
  message.header :: message.seqNum.bytes

end MessageHeader

namespace FrameHeader

def wLen (_ : FrameHeader) : Nat :=
  1

def write {W : Type} [Writer W] (frame : FrameHeader) : Cursor W Unit :=
  Writer.writeU8 frame.header

/-- The header byte has been read already. -/
def read {R : Type} (header : UInt8) : Cursor R FrameHeader :=
  return ⟨header⟩

def bytes (frame : FrameHeader) : List UInt8 :=
  [frame.header]

end FrameHeader

namespace FragmentHeader

def wLen (fragment : FragmentHeader) : Nat :=
  1 + fragment.fragId.wLen

def write {W : Type} [Writer W] (fragment : FragmentHeader) :
    Cursor W Unit := do
  Writer.writeU8 fragment.header
  fragment.fragId.write

/-- The header byte has been read already. -/
def read {R : Type} [Reader R] (header : UInt8) :
    Cursor R FragmentHeader := do
  let fragId ← SeqNum.read
  return ⟨header, fragId⟩

def bytes (fragment : FragmentHeader) : List UInt8 :=
  fragment.header :: fragment.fragId.bytes

end FragmentHeader

namespace MessageBody

def wLen : MessageBody → Nat
  | .frame f => f.wLen
  | .fragment f => f.wLen

def write {W : Type} [Writer W] : MessageBody → Cursor W Unit
  | .frame f => f.write
  | .fragment f => f.write

def read {R : Type} [Reader R] : Cursor R MessageBody := do
  let header ← Reader.readU8
  if header &&& id.MASK = id.FRAME then
    let frame ← FrameHeader.read header
    return .frame frame
  else if header &&& id.MASK = id.FRAGMENT then
    let fragment ← FragmentHeader.read header
    return .fragment fragment
  else
    Cursor.fail

def bytes : MessageBody → List UInt8
  | .frame f => f.bytes
  | .fragment f => f.bytes

end MessageBody

namespace Message

def wLen (message : Message) : Nat :=
  message.header.wLen + message.body.wLen

def write {W : Type} [Writer W] (message : Message) : Cursor W Unit := do
  message.header.write
  message.body.write

def read {R : Type} [Reader R] : Cursor R Message := do
  let header ← MessageHeader.read
  let body ← MessageBody.read
  return ⟨header, body⟩

def bytes (message : Message) : List UInt8 :=
  message.header.bytes ++ message.body.bytes

end Message

/-! ## Payloads -/

namespace Bytes

def wLen (bytes : Bytes) : Nat :=
  vleLen bytes.len + bytes.len

/-- Write the chunks one after another. -/
def writeChunks {W : Type} [Writer W] : List Chunk → Cursor W Unit
  | [] => return ()
  | slice :: rest => do
      Writer.writeChunk slice
      writeChunks rest

def write {W : Type} [Writer W] (bytes : Bytes) : Cursor W Unit := do
  writeU64 bytes.len
  writeChunks bytes.chunks

/--
Read a length-prefixed payload: as one view when it lies in one chunk, else
chunk by chunk.
-/
def read {R : Type} [Reader R] : Cursor R Bytes := do
  let len ← readUsize
  if len = 0 then
    return new
  else
    Cursor.orElse
      (do
        let chunk ← Reader.readChunkContiguous len
        return single chunk)
      (do
        let chunks ← Reader.readChunks len
        return chunks.foldl push new)

/-- The bytes of a written payload. -/
def encoded (bytes : Bytes) : List UInt8 :=
  vleBytes bytes.len ++ bytes.toVec

end Bytes

/-! ## Parsers -/

namespace Parser

def messageHeader : Parser UInt8 MessageHeader := do
  let header ← next
  let number ← seqNum
  return ⟨header, number⟩

def fragmentHeader (header : UInt8) : Parser UInt8 FragmentHeader := do
  let fragId ← seqNum
  return ⟨header, fragId⟩

def messageBody : Parser UInt8 MessageBody := do
  let header ← next
  if header &&& id.MASK = id.FRAME then
    return .frame ⟨header⟩
  else if header &&& id.MASK = id.FRAGMENT then
    let fragment ← fragmentHeader header
    return .fragment fragment
  else
    failure

def message : Parser UInt8 Message := do
  let header ← messageHeader
  let body ← messageBody
  return ⟨header, body⟩

/-- A length-prefixed payload. -/
def payload : Parser UInt8 (List UInt8) := do
  let len ← u64
  takeExactly len

/-- A payload takes at least one byte. -/
theorem length_payload {input rest content : List UInt8}
    (parsed : payload input = some (content, rest)) :
    rest.length < input.length := by
  rw [payload, bind_apply] at parsed
  cases number : u64 input with
  | none =>
      rw [number] at parsed
      cases parsed
  | some result =>
      rcases result with ⟨len, after⟩
      rw [number, Option.bind_some, takeExactly] at parsed
      split at parsed
      · cases parsed
        have shorter := length_u64 number
        change (after.drop len).length < input.length
        rw [List.length_drop]
        omega
      · cases parsed

end Parser

section Refinement

variable {R : Type} [Reader R] {presentation : Presentation R UInt8}

section Headers

variable (readsU8 : presentation.Refines Eq Reader.readU8 Parser.next)
include readsU8

theorem SeqNum.read_refines :
    presentation.Refines Eq SeqNum.read Parser.seqNum := by
  apply (readU32_refines readsU8).bind
  rintro x _ rfl
  exact Presentation.Refines.of_pure rfl

theorem MessageHeader.read_refines :
    presentation.Refines Eq MessageHeader.read Parser.messageHeader := by
  apply readsU8.bind
  rintro header _ rfl
  apply (SeqNum.read_refines readsU8).bind
  rintro number _ rfl
  exact Presentation.Refines.of_pure rfl

theorem FragmentHeader.read_refines (header : UInt8) :
    presentation.Refines Eq (FragmentHeader.read header)
      (Parser.fragmentHeader header) := by
  apply (SeqNum.read_refines readsU8).bind
  rintro fragId _ rfl
  exact Presentation.Refines.of_pure rfl

theorem MessageBody.read_refines :
    presentation.Refines Eq MessageBody.read Parser.messageBody := by
  apply readsU8.bind
  rintro header _ rfl
  split
  · exact Presentation.Refines.of_pure rfl
  · split
    · apply (FragmentHeader.read_refines readsU8 header).bind
      rintro fragment _ rfl
      exact Presentation.Refines.of_pure rfl
    · exact Presentation.Refines.of_fail

/-- Decoding a message header refines its parser. -/
theorem Message.read_refines :
    presentation.Refines Eq Message.read Parser.message := by
  apply (MessageHeader.read_refines readsU8).bind
  rintro header _ rfl
  apply (MessageBody.read_refines readsU8).bind
  rintro body _ rfl
  exact Presentation.Refines.of_pure rfl

end Headers

/-- A decoded payload holds the parsed bytes, without empty chunks. -/
def Bytes.Holds (bytes : Bytes) (content : List UInt8) : Prop :=
  bytes.toVec = content ∧ bytes.NoEmptyChunk

/-- Decoding a payload refines its parser. -/
theorem Bytes.read_refines (lawful : LawfulReader R presentation) :
    presentation.Refines Bytes.Holds Bytes.read Parser.payload := by
  apply (readU64_refines lawful.readU8).bind
  rintro len _ rfl
  split
  · rename_i zero
    subst zero
    intro state valid
    exact ⟨⟨rfl, noEmptyChunk_new⟩, valid, rfl⟩
  · rename_i nonzero
    apply Presentation.Refines.orElse
    · apply (lawful.readChunkContiguous (Nat.pos_of_ne_zero nonzero)).map
      rintro chunk content ⟨slice, solid⟩
      exact ⟨by rw [toVec_single, slice], noEmptyChunk_single solid⟩
    · apply (lawful.readChunks len).map
      rintro chunks content ⟨slices, solid⟩
      exact ⟨by rw [toVec_foldl_push, slices]; rfl,
        noEmptyChunk_new.foldl_push chunks⟩

end Refinement

/-! ## Written bytes -/

theorem MessageHeader.write_writes (message : MessageHeader) :
    Writes message.write message.bytes :=
  (Writes.writeExact [message.header]).seq message.seqNum.write_writes

theorem FrameHeader.write_writes (frame : FrameHeader) :
    Writes frame.write frame.bytes :=
  Writes.writeExact [frame.header]

theorem FragmentHeader.write_writes (fragment : FragmentHeader) :
    Writes fragment.write fragment.bytes :=
  (Writes.writeExact [fragment.header]).seq fragment.fragId.write_writes

theorem MessageBody.write_writes (body : MessageBody) :
    Writes body.write body.bytes := by
  cases body with
  | frame frame => exact frame.write_writes
  | fragment fragment => exact fragment.write_writes

theorem Message.write_writes (message : Message) :
    Writes message.write message.bytes :=
  message.header.write_writes.seq message.body.write_writes

theorem Bytes.writeChunks_writes (chunks : List Chunk) :
    Writes (writeChunks chunks) (contents chunks) := by
  induction chunks with
  | nil => exact Writes.of_pure
  | cons slice rest hypothesis =>
      exact (Writes.writeExact slice.asSlice).seq hypothesis

theorem Bytes.write_writes (bytes : Bytes) (bounded : bytes.len < 2 ^ 64) :
    Writes bytes.write bytes.encoded :=
  (writeU64_writes bounded).seq (writeChunks_writes bytes.chunks)

theorem Message.length_bytes (message : Message) :
    message.bytes.length = message.wLen := by
  have numberLength := message.header.seqNum.length_bytes
  rw [bytes, List.length_append, wLen, MessageHeader.bytes,
    MessageHeader.wLen, List.length_cons, numberLength, Nat.add_comm 1]
  congr 1
  cases message.body with
  | frame frame => rfl
  | fragment fragment =>
      simp only [MessageBody.bytes, FragmentHeader.bytes, MessageBody.wLen,
        FragmentHeader.wLen, List.length_cons, fragment.fragId.length_bytes]
      omega

theorem Bytes.length_encoded (bytes : Bytes)
    (bounded : bytes.len < 2 ^ 64) :
    bytes.encoded.length = bytes.wLen := by
  rw [encoded, List.length_append, length_vleBytes bounded,
    Bytes.length_toVec, wLen]

/-! ## Round trips -/

/-- The header byte names the kind of body it heads. -/
def MessageBody.WellFormed : MessageBody → Prop
  | .frame f => f.header &&& id.MASK = id.FRAME
  | .fragment f => f.header &&& id.MASK = id.FRAGMENT

theorem FrameHeader.new_wellFormed :
    (MessageBody.frame FrameHeader.new).WellFormed := by
  change id.FRAME &&& id.MASK = id.FRAME
  decide

theorem FragmentHeader.new_wellFormed (kind : FragmentKind)
    (fragId : SeqNum) :
    (MessageBody.fragment (FragmentHeader.new kind fragId)).WellFormed := by
  change (id.FRAGMENT ||| kind.toU8) &&& id.MASK = id.FRAGMENT
  cases kind <;> decide

theorem Parser.messageBody_bytes (body : MessageBody)
    (wellFormed : body.WellFormed) (rest : List UInt8) :
    Parser.messageBody (body.bytes ++ rest) = some (body, rest) := by
  cases body with
  | frame frame =>
      have isFrame : frame.header &&& id.MASK = id.FRAME := wellFormed
      change Parser.messageBody (frame.header :: rest) = _
      rw [Parser.messageBody, Parser.bind_some (Parser.next_cons _ _),
        if_pos isFrame]
      rfl
  | fragment fragment =>
      have isFragment : fragment.header &&& id.MASK = id.FRAGMENT :=
        wellFormed
      have notFrame : ¬ fragment.header &&& id.MASK = id.FRAME := by
        rw [isFragment]
        decide
      have fragmentHeader :
          Parser.fragmentHeader fragment.header
            (fragment.fragId.bytes ++ rest) = some (fragment, rest) := by
        rw [Parser.fragmentHeader,
          Parser.bind_some (Parser.seqNum_bytes _ rest)]
        rfl
      change Parser.messageBody
        (fragment.header :: (fragment.fragId.bytes ++ rest)) = _
      rw [Parser.messageBody, Parser.bind_some (Parser.next_cons _ _),
        if_neg notFrame, if_pos isFragment,
        Parser.bind_some fragmentHeader]
      rfl

/-- A message header is read back from its bytes. -/
theorem Parser.message_bytes (message : Message)
    (wellFormed : message.body.WellFormed) (rest : List UInt8) :
    Parser.message (message.bytes ++ rest) = some (message, rest) := by
  have header : Parser.messageHeader
      (message.header.bytes ++ (message.body.bytes ++ rest)) =
        some (message.header, message.body.bytes ++ rest) := by
    change Parser.messageHeader (message.header.header ::
      (message.header.seqNum.bytes ++ (message.body.bytes ++ rest))) = _
    rw [Parser.messageHeader, Parser.bind_some (Parser.next_cons _ _),
      Parser.bind_some (Parser.seqNum_bytes _ _)]
    rfl
  rw [Message.bytes, List.append_assoc, Parser.message,
    Parser.bind_some header,
    Parser.bind_some (Parser.messageBody_bytes _ wellFormed rest)]
  rfl

/-- A payload is read back from its bytes. -/
theorem Parser.payload_encoded (bytes : Bytes)
    (bounded : bytes.len < 2 ^ 64) (rest : List UInt8) :
    Parser.payload (bytes.encoded ++ rest) = some (bytes.toVec, rest) := by
  rw [Bytes.encoded, List.append_assoc, Parser.payload,
    Parser.bind_some (u64_vleBytes bounded _), ← Bytes.length_toVec,
    Parser.takeExactly_append]

end Thubo
