import Thubo.Pipeline.Receiving

/-!
# What the receiver keeps

Whatever bytes arrive, the rings hold no more batches than their capacity, a
stream no more payload than one message may have, and every batch is as long
as what was read or as one message.
-/

namespace Thubo
namespace Rx

/-- Every stream has buffered at most this many bytes. -/
def Defragmentation.Within (defrag : Defragmentation) (limit : Nat) : Prop :=
  ∀ stream, (defrag.get stream).buffer.len ≤ limit

/-- A batch is as long as the bytes that were read, or as one message. -/
def Decoded.Within (decoded : Decoded) (limit : Nat) : Prop :=
  ∀ batch, decoded = .deliver batch → batch.bytes.len ≤ limit

variable {defrag changed : Defragmentation} {decoded : Decoded}
variable {limit : Nat}

theorem Defragmentation.Within.set (within : defrag.Within limit)
    (stream : Stream) {dbuf : DefragBuffer}
    (small : dbuf.buffer.len ≤ limit) :
    (defrag.set stream dbuf).Within limit := by
  intro other
  rw [Defragmentation.get_set]
  split
  · exact small
  · exact within other

theorem DefragBuffer.extend_within {dbuf after : DefragBuffer}
    {seqNum fragId : SeqNum} {bytes : Bytes}
    (extended : dbuf.extend seqNum fragId bytes limit = .ok after) :
    after.buffer.len ≤ limit := by
  unfold DefragBuffer.extend at extended
  split at extended
  · cases extended
  · split at extended
    · cases extended
    · split at extended
      · cases extended
      · rename_i room
        cases extended
        rw [← Bytes.length_toVec, Bytes.toVec_extend, List.length_append,
          Bytes.length_toVec, Bytes.length_toVec]
        exact Nat.le_of_not_lt room

/-- A fragment is added within the limit, or not at all. -/
theorem acceptFragment_within (within : defrag.Within limit)
    (header : MessageHeader) (fragId : SeqNum) (kind : FragmentKind)
    (view : Option Bytes) :
    (acceptFragment defrag header fragId kind view limit).1.Within limit ∧
      (acceptFragment defrag header fragId kind view limit).2.Within
        limit := by
  have cleared : Bytes.new.len ≤ limit := Nat.zero_le _
  have nothing : ∀ {error}, Decoded.Within (.reject error) limit :=
    fun _ impossible => by cases impossible
  have kept : Decoded.Within .kept limit :=
    fun _ impossible => by cases impossible
  unfold acceptFragment
  cases kind with
  | first =>
      cases view with
      | none => exact ⟨nothing, within.set _ cleared⟩
      | some bytes =>
          dsimp only
          split
          · exact ⟨nothing, within.set _ cleared⟩
          · rename_i extended
            exact ⟨kept, within.set _
              (DefragBuffer.extend_within extended)⟩
  | more =>
      cases view with
      | none => exact ⟨nothing, within⟩
      | some bytes =>
          dsimp only
          split
          · exact ⟨nothing, within.set _ cleared⟩
          · rename_i extended
            exact ⟨kept, within.set _
              (DefragBuffer.extend_within extended)⟩
  | last =>
      cases view with
      | none => exact ⟨nothing, within⟩
      | some bytes =>
          dsimp only
          split
          · exact ⟨nothing, within⟩
          · rename_i extended
            refine ⟨?_, within.set _ cleared⟩
            intro batch same
            cases same
            exact DefragBuffer.extend_within extended

/-- Decoding keeps every stream within the limit. -/
theorem decodeBatch_within (within : defrag.Within limit) {bytes : Bytes}
    (ran : decodeBatch defrag bytes limit = .ok (decoded, changed)) :
    decoded.Within (max bytes.len limit) ∧ changed.Within limit := by
  cases decodeBatch_decoding bytes limit with
  | faults fault always =>
      rw [always] at ran
      cases ran
  | invalid nowhere always =>
      rw [always] at ran
      cases ran
      refine ⟨?_, within⟩
      intro batch impossible
      cases impossible
  | frame whole same own always =>
      rw [always] at ran
      cases ran
      refine ⟨?_, within⟩
      intro batch delivered
      cases delivered
      rw [same]
      exact Nat.le_max_left _ _
  | fragment header fragId kind view own always =>
      rw [always] at ran
      have stays := acceptFragment_within within header fragId kind view
      have same := Except.ok.inj ran
      rw [same] at stays
      exact ⟨fun batch own => (stays.1 batch own).trans
        (Nat.le_max_right _ _), stays.2⟩

namespace Interleaved

variable {state after : State} {action : Action} {exponent : Nat}

/-! ## The capacity of the rings -/

theorem exponent_isFull (ring : RingBuf.Spsc ReadBatch) (p : Priority) :
    (ring.isFull p).2.inner.exponent = ring.inner.exponent := by
  unfold RingBuf.Spsc.isFull
  split <;> rfl

theorem exponent_isEmpty (ring : RingBuf.Spsc ReadBatch) (p : Priority) :
    (ring.isEmpty p).2.inner.exponent = ring.inner.exponent := by
  unfold RingBuf.Spsc.isEmpty
  split <;> rfl

theorem readerStep_exponent (taken : readerStep state = some after) :
    after.ring.inner.exponent = state.ring.inner.exponent := by
  unfold readerStep at taken
  split at taken <;> cases taken
  · exact exponent_isFull _ _
  all_goals rfl

theorem appStep_exponent (taken : appStep state = some after) :
    after.ring.inner.exponent = state.ring.inner.exponent := by
  unfold appStep at taken
  split at taken
  · cases taken
    exact exponent_isEmpty _ _
  · split at taken
    · cases taken
    · unfold inspect at taken
      dsimp only at taken
      split at taken
      · cases taken
        rfl
      · split at taken <;> cases taken <;> rfl
  · cases taken
    exact exponent_isEmpty _ _
  · split at taken <;> cases taken
    rfl
  all_goals
    cases taken
    try rfl

/-- The capacity of the rings never changes. -/
theorem step_exponent (taken : step state action = some after) :
    after.ring.inner.exponent = state.ring.inner.exponent := by
  cases action with
  | reader => exact readerStep_exponent taken
  | app => exact appStep_exponent taken
  | push chunk fragMaxSize =>
      simp only [step] at taken
      split at taken
      · split at taken
        · cases taken
        · split at taken <;> cases taken
          rfl
      · cases taken
  | room =>
      simp only [step] at taken
      split at taken
      · split at taken <;> cases taken
        rfl
      · cases taken
  | _ =>
      simp only [step] at taken
      split at taken <;> cases taken <;> rfl

/-! ## The payload that is kept -/

/-- The read task has read at most a batch and passes on its limit. -/
def Admits (fragMaxSize : Nat) (_ : State) : Action → Prop
  | .push chunk limit => chunk.len ≤ 65535 ∧ limit = fragMaxSize
  | _ => True

instance (fragMaxSize : Nat) : DecidableRel (Admits fragMaxSize) := by
  intro state action
  unfold Admits
  split <;> infer_instance

/-- The longest batch that a ring can hold. -/
abbrev longest (fragMaxSize : Nat) : Nat :=
  max 65535 fragMaxSize

/-- Nothing that the receiver keeps is longer than it may be. -/
structure Slim (fragMaxSize exponent : Nat) (state : State) : Prop where
  running : Running state
  capacity : state.ring.inner.exponent = exponent
  streams : state.defrag.Within fragMaxSize
  batches : ∀ p, ∀ batch ∈ held state p,
    batch.bytes.len ≤ longest fragMaxSize

variable {fragMaxSize : Nat}

theorem slim_init (small : exponent ≤ 7) :
    Slim fragMaxSize exponent (init exponent small) where
  running := running_init exponent small
  capacity := rfl
  streams stream := by
    rw [init, Defragmentation.get_new]
    exact Nat.zero_le _
  batches p batch member := by
    have empty : held (init exponent small) p = [] := by
      have holds : (init exponent small).ring.Holds fun _ => [] :=
        RingBuf.Spsc.holds_new exponent small
      rw [held, holds.queue_eq]
      rfl
    rw [empty] at member
    cases member

/-- What a step does to the batches that are kept. -/
theorem Slim.change (slim : Slim fragMaxSize exponent state)
    {calm : Prop} (change : Change calm state after action)
    (admits : Admits fragMaxSize state action) :
    after.defrag.Within fragMaxSize ∧ ∀ p, ∀ batch ∈ held after p,
      batch.bytes.len ≤ longest fragMaxSize := by
  -- the batches of one ring change
  have update : ∀ {p : Priority} {batches : List ReadBatch},
      held after = Priority.update (held state) p batches →
        (∀ batch ∈ batches, batch.bytes.len ≤ longest fragMaxSize) →
          ∀ q, ∀ batch ∈ held after q,
            batch.bytes.len ≤ longest fragMaxSize := by
    intro p batches same own q batch member
    rw [same, Priority.update_apply] at member
    split at member
    · exact own batch member
    · exact slim.batches q batch member
  cases change with
  | decode chunk limit decoded nonempty ran held_ got =>
      rcases admits with ⟨short, rfl⟩
      rcases decodeBatch_within slim.streams ran with ⟨delivers, within⟩
      refine ⟨within, fun p batch member => ?_⟩
      rw [held_, List.mem_append] at member
      rcases member with old | new
      · exact slim.batches p batch old
      · have found := mem_tailOf new
        cases decoded with
        | deliver delivered_ =>
            cases found
            apply (delivers _ rfl).trans
            have len : (Bytes.single chunk).len = chunk.len := by
              rw [← Bytes.length_toVec, Bytes.toVec_single,
                chunk.length_asSlice]
            rw [len]
            exact max_le_max_right _ short
        | reject error => cases found
        | kept => cases found
  | keep silent defrag held_ got =>
      rw [defrag, held_]
      exact ⟨slim.streams, slim.batches⟩
  | @next _ silent p batch changed rest t qos defrag before next held_
      got =>
      rw [defrag]
      refine ⟨slim.streams, update held_ ?_⟩
      have own := slim.batches p
      have sound := slim.running.upright p
      rw [before] at own sound
      rw [List.forall_mem_cons] at own ⊢
      refine ⟨?_, own.2⟩
      have spec := ReadBatch.next_spec (sound batch (List.mem_cons_self ..))
      split at spec
      · rw [spec] at next
        cases next
      · rcases spec with ⟨other, same, ran, _, bytes, _⟩
        rw [ran] at next
        cases next
        rw [bytes]
        exact own.1
  | @remove _ silent p batch rest defrag before spent held_ got =>
      rw [defrag]
      refine ⟨slim.streams, update held_ fun member found => ?_⟩
      apply slim.batches p
      rw [before]
      exact List.mem_cons_of_mem _ found
  | @refuse _ silent p batch rest lossy defrag before held_ got =>
      rw [defrag]
      refine ⟨slim.streams, update held_ fun member found => ?_⟩
      apply slim.batches p
      rw [before]
      exact List.mem_append_left _ found

theorem Slim.step (slim : Slim fragMaxSize exponent state)
    (admits : Admits fragMaxSize state action)
    (taken : step state action = some after) :
    Slim fragMaxSize exponent after := by
  have stepped := step_kept slim.running.kept
    (fun impossible => impossible.elim) taken
  have stays := slim.change stepped.2 admits
  exact ⟨slim.running.step taken, (step_exponent taken).trans slim.capacity,
    stays.1, stays.2⟩

/-- The payload in the rings, at the reader task and in the streams. -/
def retained (state : State) : Nat :=
  (Priority.total fun p =>
    ((held state p).map fun batch => batch.bytes.len).sum) +
  Priority.total fun p =>
    (state.defrag.block p).buffer.len + (state.defrag.drop p).buffer.len

theorem sum_le_mul {batches : List ReadBatch} {limit : Nat}
    (each : ∀ batch ∈ batches, batch.bytes.len ≤ limit) :
    (batches.map fun batch => batch.bytes.len).sum ≤
      batches.length * limit := by
  induction batches with
  | nil => exact Nat.zero_le _
  | cons batch batches hypothesis =>
      rw [List.forall_mem_cons] at each
      have rest := hypothesis each.2
      rw [List.map_cons, List.sum_cons, List.length_cons, Nat.succ_mul]
      omega

/-- The batch at the reader task belongs to one priority. -/
theorem total_tailOf (batch : Option ReadBatch) :
    (Priority.total fun p => (tailOf p batch).length) ≤ 1 := by
  cases batch with
  | none => exact Nat.zero_le _
  | some batch =>
      simp only [tailOf_some, Priority.total]
      cases batch.qos.priority <;> simp

/--
Whatever bytes arrive and whatever the interleaving, the receiver keeps at
most one message for every stream, and at most one batch or message for every
slot of its rings and for the push in progress.
-/
theorem retains_of_run {small : exponent ≤ 7} {actions : List Action}
    (admits : Runs.Guarded step (Admits fragMaxSize) (init exponent small)
      actions)
    (ran : Runs.run step (init exponent small) actions = some state) :
    retained state ≤ (4 * 2 ^ exponent + 1) * max 65535 fragMaxSize +
      8 * fragMaxSize := by
  have slim : Slim fragMaxSize exponent state :=
    Runs.invariant
      (fun _ _ _ (slim : Slim fragMaxSize exponent _) met taken =>
        slim.step met taken)
      (slim_init small) admits ran
  have rings : ∀ p, (state.ring.queue p).length ≤ 2 ^ exponent := by
    intro p
    rw [← slim.capacity]
    exact (slim.running.kept.ring.lane p).length_le
  have sums : ∀ p, ((held state p).map fun batch => batch.bytes.len).sum ≤
      (2 ^ exponent + (tailOf p state.reader.batch).length) *
        max 65535 fragMaxSize := by
    intro p
    apply (sum_le_mul (slim.batches p)).trans
    apply Nat.mul_le_mul_right
    rw [held, List.length_append]
    exact Nat.add_le_add_right (rings p) _
  have streams : ∀ p, (state.defrag.block p).buffer.len ≤ fragMaxSize ∧
      (state.defrag.drop p).buffer.len ≤ fragMaxSize :=
    fun p => ⟨slim.streams ⟨.block, p⟩, slim.streams ⟨.drop, p⟩⟩
  have one := Nat.mul_le_mul_right (max 65535 fragMaxSize)
    (total_tailOf state.reader.batch)
  have scaled := Nat.mul_assoc 4 (2 ^ exponent) (max 65535 fragMaxSize)
  have high := sums .high
  have medium := sums .medium
  have low := sums .low
  have background := sums .background
  simp only [retained, Priority.total, Nat.add_mul, Nat.one_mul, scaled]
    at one high medium low background ⊢
  have highs := streams .high
  have mediums := streams .medium
  have lows := streams .low
  have backgrounds := streams .background
  omega

/-- A first fragment is buffered and a frame is in its ring. -/
theorem retains_of_run_fragment :
    ∃ state, retained state = 8 ∧
      retained state ≤ (4 * 2 ^ 1 + 1) * max 65535 100 + 8 * 100 := by
  have admits : Runs.Guarded step (Admits 100) (init 1 (by decide))
      (.push (Chunk.ofBuf [0, 0, 1, 0, 1, 2, 3]) 100 ::
        arrival [1, 1, 0, 1, 42]) := by
    decide +kernel
  have passed : (Runs.run step (init 1 (by decide))
      (.push (Chunk.ofBuf [0, 0, 1, 0, 1, 2, 3]) 100 ::
        arrival [1, 1, 0, 1, 42])).any
          (fun state => retained state = 8) = true := by
    decide +kernel
  rcases Runs.exists_of_any passed with ⟨state, ran, kept⟩
  exact ⟨state, of_decide_eq_true kept, retains_of_run admits ran⟩

end Interleaved
end Rx
end Thubo
