import Thubo.Codec.Encoding

/-!
# Encoding and decoding are inverse

The closure that stores a variable-length integer stays inside the slot it
is given and fills it exactly.  What a codec writes into any buffer has the
length announced by `wLen`, and decoding it gives the value back and leaves
what follows.
-/

namespace Thubo

/-! ## The closure of the integer writer -/

/-- More than seven bits are left of a nonzero value. -/
theorem shiftRight_lt_of_and {x : Nat} (more : x &&& vleMask 1 ≠ 0) :
    x >>> 7 < x := by
  have positive : 0 < x := by
    apply Nat.pos_of_ne_zero
    rintro rfl
    exact more (Nat.zero_and _)
  rw [Nat.shiftRight_eq_div_pow]
  exact Nat.div_lt_self positive (by decide)

/--
The closure, with `len` bytes stored and `x` still to be stored.  The slot
is indexed without a check, and the result is the slot and the number of
bytes stored.
-/
def vleStore (slot : List UInt8) (len x : Nat) :
    Except Fault (List UInt8 × Nat) :=
  if more : x &&& vleMask 1 ≠ 0 then
    if len < slot.length then
      vleStore (slot.set len (UInt8.ofNat x ||| 0x80)) (len + 1) (x >>> 7)
    else
      .error .bounds
  else if len ≠ VLE_LEN_MAX then
    if len < slot.length then
      .ok (slot.set len (UInt8.ofNat x), len + 1)
    else
      .error .bounds
  else
    .ok (slot, len)
termination_by x
decreasing_by exact shiftRight_lt_of_and more

/-- The closure stores the groups of a value one after another. -/
theorem vleStore_eq {rounds x : Nat} {stored free : List UInt8}
    (bounded : x < 2 ^ (7 * rounds + 1)) (few : rounds ≤ 9)
    (count : stored.length + rounds = 9)
    (room : free.length = (vleLoop rounds x).length) :
    vleStore (stored ++ free) stored.length x =
      .ok (stored ++ vleLoop rounds x, stored.length + free.length) := by
  induction rounds generalizing x stored free with
  | zero =>
      have small : x &&& vleMask 1 = 0 :=
        (and_vleMask_eq_zero (by omega) (by decide)).2 (by omega)
      have empty := List.length_eq_zero_iff.1 room
      rw [vleStore, dif_neg (by simp [small]),
        if_neg (by rw [VLE_LEN_MAX_eq]; omega), empty]
      rfl
  | succ rounds hypothesis =>
      have wide : x < 2 ^ 64 := by
        apply Nat.lt_of_lt_of_le bounded
        exact Nat.pow_le_pow_right (by decide) (by omega)
      have small : x &&& vleMask 1 = 0 ↔ x < 128 :=
        and_vleMask_eq_zero wide (by decide)
      rw [vleLoop_succ _ _ wide] at room ⊢
      by_cases stops : x < 128
      · rw [if_pos stops] at room ⊢
        rcases List.length_eq_one_iff.1 room with ⟨byte, rfl⟩
        rw [vleStore, dif_neg (by simp [small.2 stops]),
          if_pos (by rw [VLE_LEN_MAX_eq]; omega), if_pos (by simp)]
        simp
      · rw [if_neg stops] at room ⊢
        cases free with
        | nil => simp at room
        | cons byte free =>
            have rest : x >>> 7 = x / 128 := Nat.shiftRight_eq_div_pow x 7
            have split : (2 : Nat) ^ (7 * (rounds + 1) + 1) =
                128 * 2 ^ (7 * rounds + 1) := by
              rw [show 7 * (rounds + 1) + 1 = 7 + (7 * rounds + 1) by omega,
                Nat.pow_add]
            have stepped := @hypothesis (x / 128)
              (stored ++ [UInt8.ofNat x ||| 0x80]) free (by omega)
              (by omega) (by simp; omega) (by simpa using room)
            rw [vleStore, dif_pos (fun none => stops (small.1 none)),
              if_pos (by simp), rest]
            simp only [List.length_append, List.length_singleton,
              List.append_assoc, List.singleton_append] at stepped
            simpa [Nat.add_assoc, Nat.add_comm 1] using stepped

/-- The closure fills a slot of the announced length and returns it. -/
theorem vleStore_slot {x : Nat} (bounded : x < 2 ^ 64) {slot : List UInt8}
    (room : slot.length = vleLen x) :
    vleStore slot 0 x = .ok (vleBytes x, vleLen x) := by
  have stored := @vleStore_eq 9 x [] slot bounded (by decide) rfl
    (by rw [room, ← length_vleBytes bounded]; rfl)
  rw [List.nil_append, List.nil_append, List.length_nil, Nat.zero_add,
    room] at stored
  exact stored

/-! ## Round trips -/

/--
What an encoder writes into any buffer has the given length, and decoding it
from a reader gives a value back and leaves what follows.
-/
def RoundTrips {α : Type}
    (program : (W : Type) → [Writer W] → Cursor W Unit)
    (decode : Cursor BytesReader α) (length : Nat) (same : α → Prop) :
    Prop :=
  ∃ bytes, bytes.length = length ∧ Encodes program bytes ∧
    ∀ (reader : BytesReader) (suffix : List UInt8), reader.Settled →
      reader.rest = bytes ++ suffix →
        ∃ value after, decode reader = .ok value after ∧ same value ∧
          after.inner = reader.inner ∧ after.Settled ∧
          after.rest = suffix

/-- A decoder that refines a parser reads back what the parser does. -/
theorem roundTrips_of_refines {α β : Type}
    {program : (W : Type) → [Writer W] → Cursor W Unit}
    {decode : Cursor BytesReader α} {parser : Parser UInt8 β}
    {relation : α → β → Prop}
    (refines : ∀ inner,
      (BytesReader.settled inner).Refines relation decode parser)
    {bytes : List UInt8} {length : Nat} (wLen : bytes.length = length)
    (encodes : Encodes program bytes) {result : β}
    (parses : ∀ suffix, parser (bytes ++ suffix) = some (result, suffix)) :
    RoundTrips program decode length fun value => relation value result := by
  refine ⟨bytes, wLen, encodes, ?_⟩
  intro reader suffix settled rest
  have valid : (BytesReader.settled reader.inner).valid reader :=
    ⟨rfl, settled⟩
  have parsed := parses suffix
  rw [← rest] at parsed
  rcases (refines reader.inner).run_ok valid parsed with
    ⟨value, after, run, related, afterValid, restEq⟩
  exact ⟨value, after, run, related, afterValid.1, afterValid.2, restEq⟩

theorem Message.roundTrips {message : Message}
    (wellFormed : message.body.WellFormed) :
    RoundTrips (fun _ => message.write) Message.read message.wLen
      fun value => value = message :=
  roundTrips_of_refines
    (fun inner => Message.read_refines
      (BytesReader.settled_lawful inner).readU8)
    message.length_bytes
    (encodes_of_puts fun lawful => message.write_puts lawful)
    (Parser.message_bytes message wellFormed)

theorem u64_roundTrips {x : Nat} (bounded : x < 2 ^ 64) :
    RoundTrips (fun _ => writeU64 x) readU64 (vleLen x)
      fun value => value = x :=
  roundTrips_of_refines
    (fun inner => readU64_refines (BytesReader.settled_lawful inner).readU8)
    (length_vleBytes bounded)
    (encodes_of_puts fun lawful => writeU64_puts lawful bounded)
    (u64_vleBytes bounded)

theorem Bytes.roundTrips {payload : Bytes} (solid : payload.NoEmptyChunk)
    (bounded : payload.len < 2 ^ 64) :
    RoundTrips (fun _ => payload.write) Bytes.read payload.wLen
      fun value => value.Holds payload.toVec := by
  have nonempty : ∀ chunk ∈ payload.chunks, chunk.isEmpty = false := by
    intro chunk member
    have positive := solid chunk member
    rw [Chunk.isEmpty, beq_eq_false_iff_ne]
    omega
  exact roundTrips_of_refines
    (fun inner => Bytes.read_refines (BytesReader.settled_lawful inner))
    (payload.length_encoded bounded)
    (encodes_of_puts fun lawful => Bytes.write_puts lawful bounded nonempty)
    (Parser.payload_encoded payload bounded)

/--
Messages, integers and payloads are read back from what is written, and the
closure of the integer writer fills exactly its slot of at most nine bytes.
-/
theorem codec_roundTrips :
    (∀ message : Message, message.body.WellFormed →
      RoundTrips (fun _ => message.write) Message.read message.wLen
        fun value => value = message) ∧
    (∀ x : UInt64,
      RoundTrips (fun _ => writeU64 x.toNat) readU64 (vleLen x.toNat)
        fun value => value = x.toNat) ∧
    (∀ payload : Bytes, payload.NoEmptyChunk → payload.len < 2 ^ 64 →
      RoundTrips (fun _ => payload.write) Bytes.read payload.wLen
        fun value => value.toVec = payload.toVec) ∧
    ∀ (x : UInt64) (slot : List UInt8), slot.length = vleLen x.toNat →
      vleStore slot 0 x.toNat = .ok (vleBytes x.toNat, vleLen x.toNat) ∧
        vleLen x.toNat ≤ 9 := by
  refine ⟨fun message wellFormed => message.roundTrips wellFormed,
    fun x => u64_roundTrips x.toNat_lt, ?_, ?_⟩
  · intro payload solid bounded
    rcases payload.roundTrips solid bounded with
      ⟨bytes, wLen, encodes, decodes⟩
    refine ⟨bytes, wLen, encodes, ?_⟩
    intro reader suffix settled rest
    rcases decodes reader suffix settled rest with
      ⟨value, after, run, holds, left⟩
    exact ⟨value, after, run, holds.1, left⟩
  · intro x slot room
    exact ⟨vleStore_slot x.toNat_lt room, vleLen_le x.toNat_lt⟩

/-- The header of a last fragment, and a payload of two chunks. -/
theorem codec_roundTrips_fragment :
    RoundTrips
        (fun _ => (Message.mk (.new .DEFAULT (.new 300))
          (.fragment (.new .last (.new 7)))).write) Message.read 5
        (fun value => value = ⟨.new .DEFAULT (.new 300),
          .fragment (.new .last (.new 7))⟩) ∧
      RoundTrips
        (fun _ => (Bytes.mk [.ofBuf [1, 2], .ofBuf [3]]).write) Bytes.read 4
        (fun value =>
          value.toVec = (Bytes.mk [.ofBuf [1, 2], .ofBuf [3]]).toVec) :=
  ⟨codec_roundTrips.1 _ (FragmentHeader.new_wellFormed .last (.new 7)),
    codec_roundTrips.2.2.1 ⟨[.ofBuf [1, 2], .ofBuf [3]]⟩ (by
      unfold Bytes.NoEmptyChunk
      decide) (by decide)⟩

end Thubo
