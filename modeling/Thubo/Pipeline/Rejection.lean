import Thubo.Pipeline.Streams

/-!
# Refused fragments

A fragment that does not continue the message of its stream ends the message:
what its buffer holds is of no use any more.  The error is raised by `extend`,
the buffer is cleared by the caller, separately for each kind of fragment.

A refused first or continuing fragment leaves the buffer empty.  A refused
last fragment leaves it as it is, so it is empty only if it was empty before.
-/

namespace Thubo
namespace Rx

/-- The fragment does not continue the message of its stream. -/
def SendError.Refuses : SendError → Prop
  | .invalidSeqNum | .invalidFragId | .capacityLimit => True
  | _ => False

/-! ## One fragment -/

/-- Only a last fragment is refused without emptying the buffer. -/
theorem Accepts.emptied_iff {capacity : Nat} {dbuf after : DefragBuffer}
    {fragment : Arrival} {error : SendError}
    (accepts : Accepts capacity dbuf fragment (.reject error) after) :
    after.buffer.isEmpty = true ↔
      fragment.kind ≠ .last ∨ dbuf.buffer.isEmpty = true := by
  cases accepts with
  | refused kind full =>
      constructor
      · intro _
        left
        simp [kind]
      · intro _
        rfl
  | cleared kind unexpected =>
      constructor
      · intro _
        left
        simp [kind]
      · intro _
        rfl
  | ignored kind unexpected =>
      constructor
      · exact Or.inr
      · rintro (other | empty)
        · exact absurd kind other
        · exact empty

namespace Pipeline

/--
The message of a stream is given up: its buffer is empty, the other seven
buffers and the rings are unchanged.
-/
structure Cleared (before after : Pipeline) (stream : Stream) : Prop where
  empty : (after.defrag.get stream).buffer.isEmpty = true
  others : ∀ other, other ≠ stream →
    after.defrag.get other = before.defrag.get other
  rings : after.ring = before.ring

/-- The loop around the ring refuses no fragment. -/
theorem enqueue_accepts {state after : Pipeline} {batch : ReadBatch}
    {timer : Timer} {error : SendError}
    (enqueued : state.enqueue batch timer = (.error error, after)) :
    ¬ error.Refuses := by
  unfold enqueue at enqueued
  dsimp only at enqueued
  split at enqueued
  · cases enqueued
  · split at enqueued
    · cases enqueued
      exact id
    · cases enqueued
      exact id
    · split at enqueued
      · cases enqueued
      · split at enqueued
        · cases enqueued
          exact id
        · cases enqueued

/-- A refused fragment changes the buffer of its stream and nothing else. -/
theorem push_refused {state after : Pipeline} {bytes : Bytes}
    (solid : bytes.NoEmptyChunk) {fragMaxSize : Nat} {timer : Timer}
    {error : SendError} {fragment : Arrival}
    (arrived : arrival bytes.toVec = some fragment)
    (refuses : error.Refuses)
    (pushed : state.push bytes fragMaxSize timer =
      .ok (.error error, after)) :
    ∃ dbuf,
      Accepts fragMaxSize (state.defrag.get fragment.stream) fragment
          (.reject error) dbuf ∧
        after =
          { state with defrag := state.defrag.set fragment.stream dbuf } := by
  rcases decodeBatch_arrival solid arrived state.defrag fragMaxSize with
    ⟨outcome, dbuf, decoded, accepts⟩
  unfold push at pushed
  rw [decoded, ok_bind] at pushed
  cases outcome with
  | kept => cases pushed
  | reject raised =>
      cases pushed
      exact ⟨dbuf, accepts, rfl⟩
  | deliver batch =>
      have enqueued := Except.ok.inj pushed
      exact absurd refuses (enqueue_accepts enqueued)

/-! ## Runs -/

/-- A push of the run `calls` refuses `fragment`. -/
def Refusal (fragMaxSize capacity : Nat) (calls : List Call)
    (before after : Pipeline) (fragment : Arrival) : Prop :=
  ∃ past chunk timer future error,
    calls = past ++ .push chunk timer :: future ∧
      run fragMaxSize (new capacity) past = .ok before ∧
      before.push (Bytes.single chunk) fragMaxSize timer =
        .ok (.error error, after) ∧
      error.Refuses ∧ arrival chunk.asSlice = some fragment

/--
In every run, a refused fragment clears its stream exactly when it is not the
last one of its message or the buffer of the stream was empty before.
-/
theorem cleared_of_refusal (fragMaxSize capacity : Nat) (calls : List Call)
    (wellFormed : ∀ next ∈ calls, next.WellFormed)
    (before after : Pipeline) (fragment : Arrival)
    (refusal :
      Refusal fragMaxSize capacity calls before after fragment) :
    Cleared before after fragment.stream ↔
      fragment.kind ≠ .last ∨
        (before.defrag.get fragment.stream).buffer.isEmpty = true := by
  rcases refusal with
    ⟨past, chunk, timer, future, error, rfl, _, pushed, refuses, arrived⟩
  have nonempty : 0 < chunk.len :=
    (wellFormed (.push chunk timer) (by simp)).1
  rcases push_refused (Bytes.noEmptyChunk_single nonempty)
    (by rwa [Bytes.toVec_single]) refuses pushed with
    ⟨dbuf, accepts, rfl⟩
  rw [← accepts.emptied_iff]
  constructor
  · intro cleared
    simpa using cleared.empty
  · intro empty
    constructor
    · simpa using empty
    · intro other distinct
      simp [distinct]
    · rfl

/-- A first fragment, and another of its message with a number left out. -/
def interrupted (kindBits : UInt8) : List Call :=
  [.push (Chunk.ofBuf [0, 1, 0x01, 1, 7, 8]) .deadline,
    .push (Chunk.ofBuf [0, 3, kindBits, 1, 9]) .deadline]

theorem interrupted_wellFormed (kindBits : UInt8) :
    ∀ next ∈ interrupted kindBits, next.WellFormed := by
  simp [interrupted, Call.WellFormed, Chunk.len, Chunk.ofBuf]

/-- A refused continuation clears its stream. -/
theorem cleared_of_refusal_more :
    ∃ before after fragment,
      Refusal 100 16 (interrupted 0x21) before after fragment ∧
        fragment.kind ≠ .last ∧
        (before.defrag.get fragment.stream).buffer.isEmpty = false ∧
        Cleared before after fragment.stream := by
  have refusal : ∃ before after fragment,
      Refusal 100 16 (interrupted 0x21) before after fragment ∧
        fragment.kind ≠ .last ∧
        (before.defrag.get fragment.stream).buffer.isEmpty = false :=
    ⟨_, _, _, ⟨[_], _, _, [], .invalidSeqNum, rfl, rfl, rfl, trivial, rfl⟩,
      by decide, rfl⟩
  rcases refusal with ⟨before, after, fragment, refused, kind, held⟩
  refine ⟨before, after, fragment, refused, kind, held, ?_⟩
  exact (cleared_of_refusal 100 16 _ (interrupted_wellFormed _) before after
    fragment refused).2 (.inl kind)

/-- A refused last fragment keeps the payload of the first in memory. -/
theorem refused_last_keeps :
    (∀ next ∈ interrupted 0x41, next.WellFormed) ∧
      ∃ before after fragment,
        Refusal 100 16 (interrupted 0x41) before after fragment ∧
          (after.defrag.get fragment.stream).buffer.toVec = [7, 8] ∧
          ¬ Cleared before after fragment.stream := by
  constructor
  · exact interrupted_wellFormed _
  · refine ⟨_, _, _,
      ⟨[_], _, _, [], .invalidSeqNum, rfl, rfl, rfl, trivial, rfl⟩,
      rfl, ?_⟩
    intro cleared
    exact absurd cleared.empty (by decide)

end Pipeline
end Rx
end Thubo
