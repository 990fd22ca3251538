import Thubo.Codec.Inverse

/-!
# What the decoder accepts

The decoder accepts more than the encoder writes: an integer may carry groups
of zeros, and a number beyond its width is cut down.  Everything it accepts
is still bounded, is never shorter than the encoding of the value it gives,
and is that encoding when it is as long.  The readers stand before a byte of
a nonempty chunk, or at the end.
-/

namespace Thubo

/-! ## Bytes that cover an encoding -/

/-- Bytes no shorter than an encoding, and equal to it when as long. -/
structure Covers {τ : Type} (used encoding : List τ) : Prop where
  shorter : encoding.length ≤ used.length
  same : used.length = encoding.length → used = encoding

namespace Covers

variable {τ : Type} {used encoding used' encoding' : List τ}

theorem refl (used : List τ) : Covers used used where
  shorter := Nat.le_refl _
  same _ := rfl

/-- Bytes that are longer never have to be the same. -/
theorem of_longer (longer : encoding.length < used.length) :
    Covers used encoding where
  shorter := Nat.le_of_lt longer
  same equal := absurd equal (Nat.ne_of_gt longer)

/-- Bytes in sequence cover encodings in sequence. -/
theorem append (first : Covers used encoding)
    (second : Covers used' encoding') :
    Covers (used ++ used') (encoding ++ encoding') where
  shorter := by
    have shorter := first.shorter
    have shorter' := second.shorter
    rw [List.length_append, List.length_append]
    omega
  same equal := by
    have shorter := first.shorter
    have shorter' := second.shorter
    rw [List.length_append, List.length_append] at equal
    rw [first.same (by omega), second.same (by omega)]

theorem cons (covers : Covers used encoding) (head : τ) :
    Covers (head :: used) (head :: encoding) :=
  (refl [head]).append covers

end Covers

/--
The bytes that a parser takes for a value: at most `most` of them, and they
cover the encoding of the value.
-/
structure Takes {τ : Type} (input encoding rest : List τ) (most : Nat) :
    Prop where
  taken : ∃ used, input = used ++ rest ∧ used.length ≤ most ∧
    Covers used encoding

namespace Takes

variable {τ : Type} {input encoding rest : List τ} {most : Nat}
variable {encoding' rest' : List τ} {most' : Nat}

theorem append (first : Takes input encoding rest most)
    (second : Takes rest encoding' rest' most') :
    Takes input (encoding ++ encoding') rest' (most + most') := by
  rcases first.taken with ⟨used, split, few, covers⟩
  rcases second.taken with ⟨used', split', few', covers'⟩
  refine ⟨used ++ used', ?_, ?_, covers.append covers'⟩
  · rw [split, split', List.append_assoc]
  · rw [List.length_append]
    exact Nat.add_le_add few few'

theorem cons (takes : Takes input encoding rest most) (head : τ) :
    Takes (head :: input) (head :: encoding) rest (most + 1) := by
  rcases takes.taken with ⟨used, split, few, covers⟩
  refine ⟨head :: used, ?_, Nat.succ_le_succ few, covers.cons head⟩
  rw [split, List.cons_append]

end Takes

/-! ## Integers -/

/-- The continuation bit of a byte, and the bits that its group keeps. -/
theorem byte_bits (b : UInt8) :
    (b &&& 0x80 = 0 ↔ b.toNat < 128) ∧
      (b &&& 0x7f).toNat = b.toNat % 128 ∧
      (b ||| 0x80).toNat = b.toNat % 128 + 128 := by
  have bits : ∀ byte : BitVec 8,
      ((⟨byte⟩ : UInt8) &&& 0x80 = 0 ↔ byte.toNat < 128) ∧
        ((⟨byte⟩ : UInt8) &&& 0x7f).toNat = byte.toNat % 128 ∧
        ((⟨byte⟩ : UInt8) ||| 0x80).toNat = byte.toNat % 128 + 128 := by
    decide
  exact bits b.toBitVec

/-- Putting the continuation bit on a group gives back its byte. -/
theorem group_or {b group : UInt8} (continued : 128 ≤ b.toNat)
    (same : group.toNat % 128 = b.toNat % 128) : group ||| 0x80 = b := by
  apply UInt8.toNat_inj.1
  have bounded := b.toNat_lt
  rw [(byte_bits group).2.2]
  omega

/-- A last byte is taken as it is. -/
theorem Takes.last (b : UInt8) (input : List UInt8) (rounds : Nat)
    (stops : b.toNat < 128 ∨ rounds = 0) :
    Takes (b :: input) (vleLoop (rounds + 1) b.toNat) input
      (rounds + 1) := by
  have same : vleLoop (rounds + 1) b.toNat = [b] := by
    have bounded : b.toNat < 2 ^ 64 :=
      Nat.lt_trans b.toNat_lt (by decide)
    rw [vleLoop_succ _ _ bounded, UInt8.ofNat_toNat]
    split
    · rfl
    · rename_i large
      rw [stops.resolve_left large, group_or (Nat.le_of_not_lt large) rfl]
      rfl
  rw [same]
  exact ⟨[b], rfl, Nat.succ_le_succ (Nat.zero_le _), .refl [b]⟩

/-- A byte with the continuation bit goes before the groups above it. -/
theorem Takes.group {b : UInt8} {input rest : List UInt8} {rounds y : Nat}
    (continued : 128 ≤ b.toNat)
    (bounded : b.toNat % 128 + 128 * y < 2 ^ 64)
    (takes : Takes input (vleLoop (rounds + 1) y) rest (rounds + 1)) :
    Takes (b :: input) (vleLoop (rounds + 2) (b.toNat % 128 + 128 * y)) rest
      (rounds + 2) := by
  rw [vleLoop_succ _ _ bounded]
  split
  · -- the groups above are all zero, and are not written
    rename_i small
    have zero : y = 0 := by omega
    subst zero
    rcases takes.taken with ⟨used, split, few, covers⟩
    have shorter := covers.shorter
    rw [vleLoop_succ _ _ (by decide), if_pos (by decide)] at shorter
    refine ⟨b :: used, ?_, Nat.succ_le_succ few, .of_longer ?_⟩
    · rw [split, List.cons_append]
    · exact Nat.succ_lt_succ shorter
  · have above : (b.toNat % 128 + 128 * y) / 128 = y := by omega
    have same : (UInt8.ofNat (b.toNat % 128 + 128 * y)).toNat % 128 =
        b.toNat % 128 := by
      rw [UInt8.toNat_ofNat']
      omega
    rw [above, group_or continued same]
    exact takes.cons b

/--
What the read loop takes for the groups above the bits already read; by
induction on the groups that may follow.
-/
theorem u64Loop_takes {rounds i v x : Nat} {b : UInt8}
    {input rest : List UInt8} (low : v < 2 ^ i) (few : rounds ≤ 8)
    (parsed : Parser.u64Loop rounds i b v input = some (x, rest)) :
    ∃ y, x = v + y * 2 ^ i ∧ y < 2 ^ (7 * rounds + 8) ∧
      Takes (b :: input) (vleLoop (rounds + 1) y) rest (rounds + 1) := by
  induction rounds generalizing i v b input with
  | zero =>
      rw [Parser.u64Loop, or_shiftLeft low] at parsed
      cases parsed
      exact ⟨b.toNat, rfl, b.toNat_lt, .last b _ 0 (.inr rfl)⟩
  | succ rounds hypothesis =>
      have wide : (2 : Nat) ^ (7 * (rounds + 1) + 8) =
          128 * 2 ^ (7 * rounds + 8) := by
        rw [show 7 * (rounds + 1) + 8 = 7 + (7 * rounds + 8) by omega,
          Nat.pow_add]
      rw [Parser.u64Loop] at parsed
      split at parsed
      · rename_i bit
        have continued : 128 ≤ b.toNat :=
          Nat.le_of_not_lt fun small => bit ((byte_bits b).1.2 small)
        rcases Parser.bind_eq_some parsed with ⟨b', input', read, later⟩
        have split := Parser.next_eq_some read
        rw [or_shiftLeft low, (byte_bits b).2.1] at later
        have shift : (2 : Nat) ^ (i + 7) = 2 ^ i * 128 := Nat.pow_add ..
        have low' : v + b.toNat % 128 * 2 ^ i < 2 ^ (i + 7) := by
          have below : b.toNat % 128 + 1 ≤ 128 :=
            Nat.mod_lt _ (by decide)
          have scaled := Nat.mul_le_mul_right (2 ^ i) below
          rw [Nat.add_mul, Nat.one_mul] at scaled
          rw [shift, Nat.mul_comm (2 ^ i)]
          omega
        rcases hypothesis low' (by omega) later with
          ⟨y, value, small, takes⟩
        have bound : b.toNat % 128 + 128 * y <
            2 ^ (7 * (rounds + 1) + 8) := by
          rw [wide]
          omega
        refine ⟨b.toNat % 128 + 128 * y, ?_, bound, ?_⟩
        · rw [value, shift, Nat.mul_comm (2 ^ i), ← Nat.mul_assoc,
            Nat.mul_comm y, Nat.add_mul, Nat.add_assoc]
        · rw [split]
          refine Takes.group continued (Nat.lt_of_lt_of_le bound ?_) takes
          exact Nat.pow_le_pow_right (by decide) (by omega)
      · rename_i stop
        have small : b.toNat < 128 := (byte_bits b).1.1 (by simpa using stop)
        rw [or_shiftLeft low] at parsed
        cases parsed
        refine ⟨b.toNat, rfl, ?_, .last b _ _ (.inl small)⟩
        have positive := Nat.two_pow_pos (7 * rounds + 8)
        rw [wide]
        omega

theorem u64_takes {x : Nat} {input rest : List UInt8}
    (parsed : Parser.u64 input = some (x, rest)) :
    x < 2 ^ 64 ∧ Takes input (vleBytes x) rest 9 := by
  rcases Parser.bind_eq_some parsed with ⟨b, input', read, later⟩
  have split := Parser.next_eq_some read
  rw [VLE_LEN_MAX_eq] at later
  rcases u64Loop_takes (by decide) (by decide) later with
    ⟨y, value, bounded, takes⟩
  have same : x = y := by simpa using value
  subst same
  refine ⟨bounded, ?_⟩
  rw [split, vleBytes, VLE_LEN_MAX_eq]
  exact takes

/-- A value beyond a sequence number takes more than four groups. -/
theorem vleLen_wide {x : Nat} (bounded : x < 2 ^ 64) (wide : 2 ^ 28 ≤ x) :
    4 < vleLen x := by
  rw [vleLen_eq bounded, if_neg (by omega), if_neg (by omega),
    if_neg (by omega), if_neg (by omega)]
  grind

/-! ## Messages -/

/-- A number that is cut down was written in more bytes. -/
theorem seqNum_takes {number : SeqNum} {input rest : List UInt8}
    (parsed : Parser.seqNum input = some (number, rest)) :
    Takes input number.bytes rest 9 := by
  rcases Parser.bind_eq_some parsed with ⟨x, left, read, cut⟩
  rcases Parser.bind_eq_some read with ⟨y, left', read', cut'⟩
  cases cut
  cases cut'
  rcases u64_takes read' with ⟨bounded, used, split, few, covers⟩
  have value : (SeqNum.new (y % 2 ^ 32)).get = y % 2 ^ 28 := by
    change (SeqNum.new (y % 2 ^ 32)).raw = _
    rw [SeqNum.new_raw]
    omega
  refine ⟨used, split, few, ?_⟩
  rw [SeqNum.bytes, value]
  by_cases small : y < 2 ^ 28
  · rw [Nat.mod_eq_of_lt small]
    exact covers
  · apply Covers.of_longer
    have few := (SeqNum.new (y % 2 ^ 32)).wLen_le
    rw [← SeqNum.length_bytes, SeqNum.bytes, value] at few
    have wide := vleLen_wide bounded (Nat.le_of_not_lt small)
    rw [← length_vleBytes bounded] at wide
    exact Nat.lt_of_le_of_lt few (Nat.lt_of_lt_of_le wide covers.shorter)

theorem messageHeader_takes {header : MessageHeader}
    {input rest : List UInt8}
    (parsed : Parser.messageHeader input = some (header, rest)) :
    Takes input header.bytes rest 10 := by
  rcases Parser.bind_eq_some parsed with ⟨byte, left, read, later⟩
  rcases Parser.bind_eq_some later with ⟨number, left', read', done⟩
  cases done
  rw [Parser.next_eq_some read]
  exact (seqNum_takes read').cons byte

/-- A body that is accepted names its own kind. -/
theorem messageBody_takes {body : MessageBody} {input rest : List UInt8}
    (parsed : Parser.messageBody input = some (body, rest)) :
    body.WellFormed ∧ Takes input body.bytes rest 10 := by
  rcases Parser.bind_eq_some parsed with ⟨byte, left, read, later⟩
  rw [Parser.next_eq_some read]
  split at later
  · rename_i isFrame
    cases later
    exact ⟨isFrame, [byte], rfl, by simp, .refl _⟩
  · split at later
    · rename_i isFragment
      rcases Parser.bind_eq_some later with ⟨fragment, left', read', done⟩
      rcases Parser.bind_eq_some read' with ⟨number, left'', number', made⟩
      cases done
      cases made
      exact ⟨isFragment, (seqNum_takes number').cons byte⟩
    · cases later

theorem message_takes {message : Message} {input rest : List UInt8}
    (parsed : Parser.message input = some (message, rest)) :
    message.body.WellFormed ∧ Takes input message.bytes rest 20 := by
  rcases Parser.bind_eq_some parsed with ⟨header, left, read, later⟩
  rcases Parser.bind_eq_some later with ⟨body, left', read', done⟩
  cases done
  rcases messageBody_takes read' with ⟨wellFormed, takes⟩
  exact ⟨wellFormed, (messageHeader_takes read).append takes⟩

/-- The length of a payload is exact, though its encoding need not be. -/
theorem payload_takes {content input rest : List UInt8}
    (parsed : Parser.payload input = some (content, rest)) :
    content.length < 2 ^ 64 ∧
      Takes input (vleBytes content.length ++ content) rest
        (9 + content.length) := by
  rcases Parser.bind_eq_some parsed with ⟨len, left, read, later⟩
  rcases u64_takes read with ⟨bounded, takes⟩
  rw [Parser.takeExactly] at later
  split at later
  · rename_i enough
    cases later
    rw [List.length_take, Nat.min_eq_left enough]
    refine ⟨bounded, takes.append ⟨left.take len, ?_, ?_, .refl _⟩⟩
    · rw [List.take_append_drop]
    · rw [List.length_take]
      exact Nat.min_le_left _ _
  · cases later

/-! ## The decoders -/

/-- What a decoder has taken from a reader, beside an encoding. -/
structure Accepts (reader after : BytesReader) (encoding : List UInt8)
    (most : Nat) : Prop where
  inner : after.inner = reader.inner
  settled : after.Settled
  takes : Takes reader.rest encoding after.rest most

/--
Whatever bytes a decoder accepts from a settled reader, whose chunks are all
nonempty, they are bounded, no shorter than the encoding of the value it
gives, and that encoding when they are as long; and what is written for the
value is read back.
-/
theorem accepts_canonical {reader after : BytesReader}
    (settled : reader.Settled) :
    (∀ message, Message.read reader = .ok message after →
      Accepts reader after message.bytes 20 ∧
        RoundTrips (fun _ => message.write) Message.read message.wLen
          fun value => value = message) ∧
    (∀ x, readU64 reader = .ok x after →
      Accepts reader after (vleBytes x) 9 ∧
        RoundTrips (fun _ => writeU64 x) readU64 (vleLen x)
          fun value => value = x) ∧
    ∀ payload, Bytes.read reader = .ok payload after →
      Accepts reader after payload.encoded (9 + payload.len) ∧
        RoundTrips (fun _ => payload.write) Bytes.read payload.wLen
          fun value => value.Holds payload.toVec := by
  have lawful := BytesReader.settled_lawful reader.inner
  have valid : (BytesReader.settled reader.inner).valid reader :=
    ⟨rfl, settled⟩
  refine ⟨?_, ?_, ?_⟩
  · intro message ran
    rcases (Message.read_refines lawful.readU8).parsed valid ran with
      ⟨_, parsed, rfl, same, stays⟩
    rcases message_takes parsed with ⟨wellFormed, takes⟩
    exact ⟨⟨same, stays, takes⟩, message.roundTrips wellFormed⟩
  · intro x ran
    rcases (readU64_refines lawful.readU8).parsed valid ran with
      ⟨_, parsed, rfl, same, stays⟩
    rcases u64_takes parsed with ⟨bounded, takes⟩
    exact ⟨⟨same, stays, takes⟩, u64_roundTrips bounded⟩
  · intro payload ran
    rcases (Bytes.read_refines lawful).parsed valid ran with
      ⟨content, parsed, ⟨content_, solid⟩, same, stays⟩
    subst content_
    rcases payload_takes parsed with ⟨bounded, takes⟩
    rw [Bytes.length_toVec] at bounded takes
    exact ⟨⟨same, stays, takes⟩, Bytes.roundTrips solid bounded⟩

/-- The header of a frame, with groups of zeros after its number. -/
def padded : Bytes :=
  .single (.ofBuf [1, 0x85, 0x80, 0x80, 0x80, 0x80, 0, 0])

theorem accepts_canonical_padded :
    ∃ reader after message, Message.read reader = .ok message after ∧
      reader.rest.length = 8 ∧ message.bytes.length = 3 ∧
      Accepts reader after message.bytes 20 := by
  have solid : padded.NoEmptyChunk := Bytes.noEmptyChunk_single (by decide)
  have ran : Message.read padded.reader =
      .ok ⟨⟨1, .new 5⟩, .frame ⟨0⟩⟩ ⟨padded, ⟨1, 0⟩⟩ := by
    rfl
  exact ⟨_, _, _, ran, rfl, rfl,
    ((accepts_canonical (BytesReader.settled_reader solid)).1 _ ran).1⟩

end Thubo
