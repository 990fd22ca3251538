import Thubo.Pipeline.Defrag

/-!
# The receive pipeline, one call at a time

The state of the receiver between calls: four queues of batches, the
reassembly buffers and the congestion bits.  The calls of the reader task and
of the application are functions on it.

The safety result at the end follows arbitrary bytes through both calls.
-/

namespace Thubo
namespace Rx

/-- The receive pipeline with no call in progress. -/
structure Pipeline where
  /-- Capacity of each ring. -/
  capacity : Nat
  /-- The batches in the ring of a priority, oldest first. -/
  ring : Priority → List ReadBatch
  defrag : Defragmentation
  congested : Priority → Bool

/--
How a wait for room ends when no other call runs meanwhile: the push deadline
has passed already, or the timer of the wait expires.
-/
inductive Timer where
  | deadline
  | expired
deriving DecidableEq, Repr

namespace Pipeline

def new (capacity : Nat) : Pipeline :=
  ⟨capacity, fun _ => [], .new, fun _ => false⟩

/-! ## Push -/

/-- The loop of push around the ring of the batch's priority. -/
def enqueue (state : Pipeline) (batch : ReadBatch) (timer : Timer) :
    Except SendError Bool × Pipeline :=
  let priority := batch.qos.priority
  let setCongested :=
    { state with
      congested := Priority.update state.congested priority true }
  if (state.ring priority).length < state.capacity then
    (.ok true,
      { state with
        ring := Priority.update state.ring priority
          (state.ring priority ++ [batch]) })
  else
    match batch.qos.congestionControl, timer with
    | .block, .deadline => (.error .timeout, state)
    | .block, .expired => (.error .timeout, setCongested)
    | .drop, timer =>
        if state.congested priority then
          (.ok false, state)
        else
          match timer with
          | .deadline => (.error .timeout, state)
          | .expired => (.ok false, setCongested)

/-- Receive one batch. -/
def push (state : Pipeline) (bytes : Bytes) (fragMaxSize : Nat)
    (timer : Timer) :
    Except Fault (Except SendError Bool × Pipeline) := do
  let (decoded, defrag) ← decodeBatch state.defrag bytes fragMaxSize
  let state := { state with defrag := defrag }
  match decoded with
  | .reject error => return (.error error, state)
  | .kept => return (.ok true, state)
  | .deliver batch => return state.enqueue batch timer

/-! ## Pull -/

/-- The highest priority whose ring holds a batch. -/
def ready (state : Pipeline) : Option Priority :=
  Priority.ALL.find? fun priority => !(state.ring priority).isEmpty

/-- Remove the oldest batch of a priority. -/
def removeHead (state : Pipeline) (priority : Priority) : Pipeline :=
  { state with
    ring := Priority.update state.ring priority
      (state.ring priority).tail }

/-- Replace the oldest batch of a priority. -/
def replaceHead (state : Pipeline) (priority : Priority)
    (batch : ReadBatch) : Pipeline :=
  { state with
    ring := Priority.update state.ring priority
      (batch :: (state.ring priority).tail) }

/-- Clear the congestion bit of a priority. -/
def unsetCongested (state : Pipeline) (priority : Priority) : Pipeline :=
  { state with
    congested := Priority.update state.congested priority false }

/--
The loop of `try_pull`.  Every round but the last removes a batch, so the
number of batches bounds the rounds.
-/
def tryPullLoop : Nat → Pipeline →
    Except Fault (Option (Bytes × QoS) × Pipeline)
  | 0, state => .ok (none, state)
  | rounds + 1, state =>
      match state.ready with
      | none => .ok (none, state)
      | some p =>
          match state.ring p with
          | [] => .ok (none, state)
          | batch :: _ => do
              let priority := batch.qos.priority
              let isCongested := state.congested priority
              let state := state.unsetCongested priority
              if isCongested ∧ batch.qos.congestionControl = .drop then
                tryPullLoop rounds (state.removeHead p)
              else
                match ← batch.next with
                | some (t, qos, batch) =>
                    return (some (t, qos), state.replaceHead p batch)
                | none => tryPullLoop rounds (state.removeHead p)

/-- The number of batches in the rings. -/
def size (state : Pipeline) : Nat :=
  (Priority.ALL.map fun priority => (state.ring priority).length).sum

/-- Return the next message, if there is one. -/
def tryPull (state : Pipeline) :
    Except Fault (Option (Bytes × QoS) × Pipeline) :=
  tryPullLoop (state.size + 1) state

/-- The ready priority is the highest nonempty one. -/
theorem ready_some {state : Pipeline} {p : Priority}
    (found : state.ready = some p) :
    ∃ batch more, state.ring p = batch :: more := by
  have nonempty := List.find?_some found
  cases ring : state.ring p with
  | nil => simp [ring] at nonempty
  | cons batch more => exact ⟨batch, more, rfl⟩

/-- The rings above the ready one are empty. -/
theorem ready_above {state : Pipeline} {p : Priority}
    (found : state.ready = some p) (q : Priority)
    (before : q.toNat < p.toNat) : state.ring q = [] := by
  have empty := (Priority.find?_ALL_eq_some.1 found).2 q before
  simpa using empty

theorem ready_none {state : Pipeline} (none_ : state.ready = none)
    (p : Priority) : state.ring p = [] := by
  have empty := List.find?_eq_none.1 none_ p (Priority.mem_ALL p)
  simpa using empty

theorem size_removeHead {state : Pipeline} {p : Priority}
    {batch : ReadBatch} {more : List ReadBatch}
    (ring : state.ring p = batch :: more) :
    (state.removeHead p).size + 1 = state.size := by
  cases p <;>
    simp [size, removeHead, Priority.ALL, Priority.update_apply, ring] <;>
    omega

/-! ## Soundness of positions -/

/--
Every buffered chunk is nonempty and every queued batch is at a position that
a reader has reached.
-/
structure Sound (state : Pipeline) : Prop where
  buffers : ∀ stream, (state.defrag.get stream).buffer.NoEmptyChunk
  batches : ∀ p, ∀ batch ∈ state.ring p, batch.Sound

theorem sound_new (capacity : Nat) : (new capacity).Sound where
  buffers stream := by
    change ((Defragmentation.new).get stream).buffer.NoEmptyChunk
    rw [Defragmentation.get_new]
    exact Bytes.noEmptyChunk_new
  batches p batch member := by
    cases member

end Pipeline

/-- No buffered chunk is empty. -/
def Defragmentation.Sound (defrag : Defragmentation) : Prop :=
  ∀ stream, (defrag.get stream).buffer.NoEmptyChunk

/-- A batch that push goes on with is at a reached position. -/
def Decoded.Sound : Decoded → Prop
  | .deliver batch => batch.Sound
  | _ => True

theorem Defragmentation.Sound.set {defrag : Defragmentation}
    (sound : defrag.Sound) (stream : Stream) {dbuf : DefragBuffer}
    (solid : dbuf.buffer.NoEmptyChunk) :
    (defrag.set stream dbuf).Sound := by
  intro other
  rw [Defragmentation.get_set]
  split
  · exact solid
  · exact sound other

theorem DefragBuffer.extend_noEmptyChunk {dbuf after : DefragBuffer}
    {seqNum fragId : SeqNum} {bytes : Bytes} {capacity : Nat}
    (solid : dbuf.buffer.NoEmptyChunk)
    (extended : dbuf.extend seqNum fragId bytes capacity = .ok after) :
    after.buffer.NoEmptyChunk := by
  unfold DefragBuffer.extend at extended
  split at extended
  · cases extended
  · split at extended
    · cases extended
    · split at extended
      · cases extended
      · cases extended
        exact solid.extend bytes

/-- A reassembled message starts at a reached position. -/
theorem ReadBatch.sound_zero {bytes : Bytes} (solid : bytes.NoEmptyChunk)
    (qos : QoS) : (ReadBatch.mk bytes qos .zero).Sound :=
  BytesReader.settled_reader solid

/-- Adding a fragment keeps the buffers and yields a sound batch. -/
theorem acceptFragment_sound {defrag : Defragmentation}
    (sound : defrag.Sound) (header : MessageHeader) (fragId : SeqNum)
    (kind : FragmentKind) (view : Option Bytes) (capacity : Nat) :
    (acceptFragment defrag header fragId kind view capacity).1.Sound ∧
      (acceptFragment defrag header fragId kind view capacity).2.Sound := by
  have cleared := Bytes.noEmptyChunk_new
  have buffered := sound (stream header.qos)
  unfold acceptFragment
  cases kind with
  | first =>
      cases view with
      | none => exact ⟨trivial, sound.set _ cleared⟩
      | some bytes =>
          dsimp only
          split
          · exact ⟨trivial, sound.set _ cleared⟩
          · rename_i extended
            exact ⟨trivial, sound.set _
              (DefragBuffer.extend_noEmptyChunk cleared extended)⟩
  | more =>
      cases view with
      | none => exact ⟨trivial, sound⟩
      | some bytes =>
          dsimp only
          split
          · exact ⟨trivial, sound.set _ cleared⟩
          · rename_i extended
            exact ⟨trivial, sound.set _
              (DefragBuffer.extend_noEmptyChunk buffered extended)⟩
  | last =>
      cases view with
      | none => exact ⟨trivial, sound⟩
      | some bytes =>
          dsimp only
          split
          · exact ⟨trivial, sound⟩
          · rename_i extended
            exact ⟨ReadBatch.sound_zero
                (DefragBuffer.extend_noEmptyChunk buffered extended) _,
              sound.set _ cleared⟩

/-- The header of a batch does not carry undeclared kind bits. -/
def KindDefined (content : List UInt8) : Prop :=
  match Parser.message content with
  | some (⟨_, .fragment f⟩, _) => FragmentHeader.KindDeclared f.header
  | _ => True

instance (content : List UInt8) : Decidable (KindDefined content) := by
  unfold KindDefined
  split <;> infer_instance

/-- Decoding a batch with declared kind bits ends ordinarily. -/
theorem decodeBatch_sound {bytes : Bytes} (solid : bytes.NoEmptyChunk)
    (defined : KindDefined bytes.toVec) {defrag : Defragmentation}
    (sound : defrag.Sound) (fragMaxSize : Nat) :
    ∃ decoded after,
      decodeBatch defrag bytes fragMaxSize = .ok (decoded, after) ∧
        decoded.Sound ∧ after.Sound := by
  unfold KindDefined at defined
  cases parsed : Parser.message bytes.toVec with
  | none =>
      exact ⟨_, _, decodeBatch_invalid solid parsed defrag fragMaxSize,
        trivial, sound⟩
  | some result =>
      obtain ⟨⟨header, body⟩, rest⟩ := result
      cases body with
      | frame f =>
          obtain ⟨batch, frame, run⟩ :=
            decodeBatch_frame solid parsed defrag fragMaxSize
          exact ⟨_, _, run, frame.sound, sound⟩
      | fragment f =>
          rw [parsed] at defined
          obtain ⟨kind, kindOk⟩ := f.kind_ok_iff.2 defined
          obtain ⟨view, _, run⟩ :=
            decodeBatch_fragment solid parsed defrag fragMaxSize
          rw [kindOk] at run
          exact ⟨_, _, run, acceptFragment_sound sound header f.fragId kind
            (some view) fragMaxSize⟩

/-- Decoding a batch with undeclared kind bits reinterprets them. -/
theorem decodeBatch_undefined {bytes : Bytes} (solid : bytes.NoEmptyChunk)
    (undefined_ : ¬ KindDefined bytes.toVec) (defrag : Defragmentation)
    (fragMaxSize : Nat) :
    ∃ fault, decodeBatch defrag bytes fragMaxSize = .error fault := by
  unfold KindDefined at undefined_
  split at undefined_
  · rename_i header f rest parsed
    obtain ⟨view, _, run⟩ :=
      decodeBatch_fragment solid parsed defrag fragMaxSize
    cases kind : f.kind with
    | ok kind => exact absurd (f.kind_ok_iff.1 ⟨_, ‹_›⟩) undefined_
    | error fault =>
        refine ⟨fault, ?_⟩
        rw [run, kind]
        rfl
  · exact absurd trivial undefined_

namespace Pipeline

theorem enqueue_sound {state : Pipeline} (sound : state.Sound)
    {batch : ReadBatch} (batchSound : batch.Sound) (timer : Timer) :
    (state.enqueue batch timer).2.Sound := by
  have marked : ∀ table, Sound { state with congested := table } :=
    fun table => ⟨sound.buffers, sound.batches⟩
  unfold enqueue
  dsimp only
  split
  · refine ⟨sound.buffers, ?_⟩
    intro p other member
    simp only [Priority.update_apply] at member
    split at member
    · rename_i same
      rcases List.mem_append.1 member with old | new
      · exact sound.batches _ other old
      · cases List.mem_singleton.1 new
        exact batchSound
    · exact sound.batches p other member
  · split
    · exact sound
    · exact marked _
    · split
      · exact sound
      · split
        · exact sound
        · exact marked _

/-- Push of a batch with declared kind bits ends ordinarily. -/
theorem push_sound {state : Pipeline} (sound : state.Sound)
    {bytes : Bytes} (solid : bytes.NoEmptyChunk)
    (defined : KindDefined bytes.toVec) (fragMaxSize : Nat)
    (timer : Timer) :
    ∃ result after,
      state.push bytes fragMaxSize timer = .ok (result, after) ∧
        after.Sound := by
  obtain ⟨decoded, defrag, run, decodedSound, defragSound⟩ :=
    decodeBatch_sound solid defined sound.buffers fragMaxSize
  have stored : Sound { state with defrag := defrag } :=
    ⟨defragSound, sound.batches⟩
  unfold push
  rw [run, ok_bind]
  cases decoded with
  | reject error => exact ⟨_, _, rfl, stored⟩
  | kept => exact ⟨_, _, rfl, stored⟩
  | deliver batch =>
      exact ⟨_, _, rfl, enqueue_sound stored decodedSound timer⟩

theorem removeHead_sound {state : Pipeline} (sound : state.Sound)
    (p : Priority) : (state.removeHead p).Sound := by
  refine ⟨sound.buffers, ?_⟩
  intro q other member
  simp only [removeHead, Priority.update_apply] at member
  split at member
  · exact sound.batches p other (List.mem_of_mem_tail member)
  · exact sound.batches q other member

theorem replaceHead_sound {state : Pipeline} (sound : state.Sound)
    (p : Priority) {batch : ReadBatch} (batchSound : batch.Sound) :
    (state.replaceHead p batch).Sound := by
  refine ⟨sound.buffers, ?_⟩
  intro q other member
  simp only [replaceHead, Priority.update_apply] at member
  split at member
  · rcases List.mem_cons.1 member with rfl | later
    · exact batchSound
    · exact sound.batches p other (List.mem_of_mem_tail later)
  · exact sound.batches q other member

/-- The loop of `try_pull` ends ordinarily in sound states. -/
theorem tryPullLoop_sound (rounds : Nat) {state : Pipeline}
    (sound : state.Sound) :
    ∃ result after,
      tryPullLoop rounds state = .ok (result, after) ∧ after.Sound := by
  induction rounds generalizing state with
  | zero => exact ⟨_, _, rfl, sound⟩
  | succ rounds hypothesis =>
      unfold tryPullLoop
      cases found : state.ready with
      | none => exact ⟨_, _, rfl, sound⟩
      | some p =>
          obtain ⟨batch, more, ring⟩ := ready_some found
          have batchSound := sound.batches p batch
            (by rw [ring]; exact List.mem_cons_self ..)
          have unset : (state.unsetCongested batch.qos.priority).Sound :=
            ⟨sound.buffers, sound.batches⟩
          have removed := removeHead_sound unset p
          dsimp only
          rw [ring]
          dsimp only
          split
          · exact hypothesis removed
          · have spec := ReadBatch.next_spec batchSound
            split at spec
            · rw [spec, ok_bind]
              exact hypothesis removed
            · obtain ⟨t, after, next, _, _, _, afterSound, _⟩ := spec
              rw [next, ok_bind]
              exact ⟨_, _, rfl, replaceHead_sound unset p afterSound⟩

theorem tryPull_sound {state : Pipeline} (sound : state.Sound) :
    ∃ result after, state.tryPull = .ok (result, after) ∧ after.Sound :=
  tryPullLoop_sound _ sound

/-! ## Runs of calls -/

/-- One call on the receive pipeline. -/
inductive Call where
  /-- The reader task pushes the window of a buffer it has read. -/
  | push (chunk : Chunk) (timer : Timer)
  /-- The application asks for a message. -/
  | tryPull
deriving DecidableEq, Repr

/-- The state after one call. -/
def call (fragMaxSize : Nat) (state : Pipeline) :
    Call → Except Fault Pipeline
  | .push chunk timer => do
      let (_, state) ← state.push (Bytes.single chunk) fragMaxSize timer
      return state
  | .tryPull => do
      let (_, state) ← state.tryPull
      return state

/-- The state after a sequence of calls. -/
def run (fragMaxSize : Nat) : Pipeline → List Call → Except Fault Pipeline
  | state, [] => .ok state
  | state, next :: calls => do
      let state ← state.call fragMaxSize next
      run fragMaxSize state calls

/-- The chunk of a push, as the reader task builds it. -/
def Call.WellFormed : Call → Prop
  | .push chunk _ => 0 < chunk.len ∧ chunk.len ≤ 65535
  | .tryPull => True

/-- The chunk of a push does not carry undeclared kind bits. -/
def Call.KindDefined : Call → Prop
  | .push chunk _ => Rx.KindDefined chunk.asSlice
  | .tryPull => True

/-- A call ends ordinarily exactly when its kind bits are declared. -/
theorem call_sound {state : Pipeline} (sound : state.Sound)
    {next : Call} (wellFormed : next.WellFormed) (fragMaxSize : Nat) :
    (next.KindDefined → ∃ after,
      state.call fragMaxSize next = .ok after ∧ after.Sound) ∧
    (¬ next.KindDefined → ∃ fault,
      state.call fragMaxSize next = .error fault) := by
  cases next with
  | tryPull =>
      refine ⟨fun _ => ?_, fun undefined_ => absurd trivial undefined_⟩
      obtain ⟨result, after, ran, afterSound⟩ := tryPull_sound sound
      exact ⟨after, by rw [call, ran, ok_bind]; rfl, afterSound⟩
  | push chunk timer =>
      have solid := Bytes.noEmptyChunk_single wellFormed.1
      constructor
      · intro defined
        obtain ⟨result, after, ran, afterSound⟩ :=
          push_sound sound solid (by rwa [Bytes.toVec_single])
            fragMaxSize timer
        exact ⟨after, by rw [call, ran, ok_bind]; rfl, afterSound⟩
      · intro undefined_
        obtain ⟨fault, ran⟩ :=
          decodeBatch_undefined solid (by rwa [Bytes.toVec_single])
            state.defrag fragMaxSize
        exact ⟨fault, by rw [call, push, ran, error_bind, error_bind]⟩

/--
A run of calls on arbitrary bytes ends ordinarily exactly when no pushed
batch is a fragment with both kind bits set.
-/
theorem run_ordinary_iff (fragMaxSize capacity : Nat) (calls : List Call)
    (wellFormed : ∀ next ∈ calls, next.WellFormed) :
    (∃ state, run fragMaxSize (new capacity) calls = .ok state) ↔
      ∀ next ∈ calls, next.KindDefined := by
  suffices general : ∀ state : Pipeline, state.Sound →
      ((∃ after, run fragMaxSize state calls = .ok after) ↔
        ∀ next ∈ calls, next.KindDefined) from
    general _ (sound_new capacity)
  induction calls with
  | nil =>
      intro state _
      constructor
      · intro _ other member
        cases member
      · intro _
        exact ⟨_, rfl⟩
  | cons next calls hypothesis =>
      intro state sound
      have step := call_sound sound
        (wellFormed next (List.mem_cons_self ..)) fragMaxSize
      have later := hypothesis fun other member =>
        wellFormed other (List.mem_cons_of_mem _ member)
      rw [List.forall_mem_cons]
      by_cases defined : next.KindDefined
      · obtain ⟨after, ran, afterSound⟩ := step.1 defined
        rw [run, ran, ok_bind, later after afterSound]
        exact ⟨fun rest => ⟨defined, rest⟩, fun both => both.2⟩
      · obtain ⟨fault, ran⟩ := step.2 defined
        rw [run, ran, error_bind]
        constructor
        · rintro ⟨state, impossible⟩
          cases impossible
        · intro both
          exact absurd both.1 defined

/-- A fragment with both kind bits set, received and then ignored. -/
theorem run_ordinary_iff_undeclared :
    (∃ state, run 100 (new 16)
        [.push (Chunk.ofBuf [0, 0, 0x61, 0]) .deadline, .tryPull] =
          .ok state) ↔
      ∀ next ∈ [Call.push (Chunk.ofBuf [0, 0, 0x61, 0]) .deadline,
        .tryPull], next.KindDefined :=
  run_ordinary_iff 100 16 _ (by
    simp [Call.WellFormed, Chunk.len, Chunk.ofBuf])

/-- The byte `0x61` sends the reinterpretation outside the enumeration. -/
theorem run_undeclared_kind :
    (Call.push (Chunk.ofBuf [0, 0, 0x61, 0]) .deadline).WellFormed ∧
      run 100 (new 16)
          [.push (Chunk.ofBuf [0, 0, 0x61, 0]) .deadline, .tryPull] =
        .error .discriminant := by
  constructor
  · simp [Call.WellFormed, Chunk.len, Chunk.ofBuf]
  · rfl

end Pipeline
end Rx
end Thubo
