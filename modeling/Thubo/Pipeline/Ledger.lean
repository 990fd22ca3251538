import Thubo.Pipeline.Delivery
import Thubo.Pipeline.Removal

/-!
# What becomes of the batches

Every step of the receive pipeline leaves its history alone, or writes one
batch, returns one message, or removes one batch.  From this the fate of each
batch written follows: its messages are returned in order, and only a
droppable batch can lose the rest of them.
-/

namespace Thubo
namespace Rx
namespace Interleaved

/-- The rings and the history. -/
structure View where
  queue : Priority → List ReadBatch
  inserted : Priority → List ReadBatch
  removals : List Removal
  got : List (Bytes × QoS)

def view (state : State) : View :=
  ⟨state.ring.queue, state.inserted, state.removals, state.got⟩

/-- What one step can do to the rings and the history. -/
inductive Effect (before : View) : View → Prop
  | keep : Effect before before
  | insert (batch : ReadBatch) (sound : batch.Sound) :
      Effect before
        { before with
          queue := Priority.update before.queue batch.qos.priority
            (before.queue batch.qos.priority ++ [batch])
          inserted := Priority.update before.inserted batch.qos.priority
            (before.inserted batch.qos.priority ++ [batch]) }
  | next {p : Priority} {batch changed : ReadBatch}
      {rest : List ReadBatch} {t : Bytes} {qos : QoS}
      (queue : before.queue p = batch :: rest)
      (next : batch.next = .ok (some (t, qos, changed))) :
      Effect before
        { before with
          queue := Priority.update before.queue p (changed :: rest)
          got := before.got ++ [(t, qos)] }
  | remove {removal : Removal} {rest : List ReadBatch}
      (queue : before.queue removal.removed.ring =
        removal.batch :: rest) :
      Effect before
        { before with
          queue := Priority.update before.queue removal.removed.ring rest
          removals := before.removals ++ [removal] }

/-! ## Sound batches -/

/-- The batch at a point of the reader task is at a reached position. -/
def ReaderPoint.Sound : ReaderPoint → Prop
  | .offer batch | .insert batch | .full batch | .timed batch
  | .waiting batch => batch.Sound
  | .idle | .notify | .gone => True

/-- The reader task holds sound data only. -/
structure Solid (state : State) : Prop where
  defrag : state.defrag.Sound
  reader : state.reader.Sound

variable {state after : State}

theorem solid_init (exponent : Nat) (small : exponent ≤ 7) :
    Solid (init exponent small) where
  defrag stream := by
    rw [init, Defragmentation.get_new]
    exact Bytes.noEmptyChunk_new
  reader := trivial

/-- What the decoding half of push delivers is sound. -/
theorem decoded_sound {defrag : Defragmentation} (sound : defrag.Sound)
    {chunk : Chunk} (nonempty : chunk.len ≠ 0) {fragMaxSize : Nat}
    {decoded : Decoded} {changed : Defragmentation}
    (ran : decodeBatch defrag (Bytes.single chunk) fragMaxSize =
      .ok (decoded, changed)) : decoded.Sound ∧ changed.Sound := by
  have solid := Bytes.noEmptyChunk_single (Nat.pos_of_ne_zero nonempty)
  by_cases defined : KindDefined (Bytes.single chunk).toVec
  · rcases decodeBatch_sound solid defined sound fragMaxSize with
      ⟨_, _, same, decodedSound, changedSound⟩
    cases ran.symm.trans same
    exact ⟨decodedSound, changedSound⟩
  · rcases decodeBatch_undefined solid defined defrag fragMaxSize with
      ⟨fault, failed⟩
    cases ran.symm.trans failed

theorem start_sound {decoded : Decoded} (sound : decoded.Sound) :
    (start decoded).Sound := by
  cases decoded with
  | deliver batch => exact sound
  | _ => trivial

theorem readerStep_solid (solid : Solid state)
    (taken : readerStep state = some after) : Solid after := by
  have sound := solid.reader
  unfold readerStep at taken
  split at taken
  · rename_i batch point
    cases taken
    rw [point] at sound
    refine ⟨solid.defrag, ?_⟩
    simp only [offer]
    split
    · unfold giveBack
      split <;> exact sound
    · exact sound
  · cases taken
    exact ⟨solid.defrag, trivial⟩
  · rename_i batch point
    cases taken
    rw [point] at sound
    refine ⟨solid.defrag, ?_⟩
    dsimp only
    split
    · trivial
    · exact sound
  · rename_i batch point
    cases taken
    rw [point] at sound
    exact ⟨solid.defrag, sound⟩
  · cases taken
    exact ⟨solid.defrag, trivial⟩
  · cases taken

/-- The application does not touch what the reader task holds. -/
theorem appStep_reader (taken : appStep state = some after) :
    after.defrag = state.defrag ∧ after.reader = state.reader := by
  unfold appStep at taken
  split at taken
  · cases taken
    exact ⟨rfl, rfl⟩
  · split at taken
    · cases taken
    · unfold inspect at taken
      dsimp only at taken
      split at taken
      · cases taken
        exact ⟨rfl, rfl⟩
      · split at taken <;> cases taken <;> exact ⟨rfl, rfl⟩
  · cases taken
    exact ⟨rfl, rfl⟩
  · split at taken <;> cases taken
    exact ⟨rfl, rfl⟩
  · cases taken
    exact ⟨rfl, rfl⟩
  · cases taken
    exact ⟨rfl, rfl⟩
  · cases taken
    exact ⟨rfl, rfl⟩
  · cases taken
    exact ⟨rfl, rfl⟩
  · cases taken
    exact ⟨rfl, rfl⟩
  · cases taken
  · cases taken

theorem step_solid {action : Action} (solid : Solid state)
    (taken : step state action = some after) : Solid after := by
  have sound := solid.reader
  cases action with
  | push chunk fragMaxSize =>
      simp only [step] at taken
      split at taken
      · split at taken
        · cases taken
        · rename_i nonempty
          split at taken
          · cases taken
          · rename_i ran
            cases taken
            rcases decoded_sound solid.defrag nonempty ran with
              ⟨decodedSound, changedSound⟩
            exact ⟨changedSound, start_sound decodedSound⟩
      · cases taken
  | reader => exact readerStep_solid solid taken
  | deadline =>
      simp only [step] at taken
      split at taken
      · cases taken
        exact ⟨solid.defrag, trivial⟩
      · cases taken
  | room =>
      simp only [step] at taken
      split at taken
      · rename_i point
        rw [point] at sound
        split at taken
        · cases taken
          exact ⟨solid.defrag, sound⟩
        · cases taken
      · cases taken
  | expired =>
      simp only [step] at taken
      split at taken
      · rename_i point
        rw [point] at sound
        cases taken
        refine ⟨solid.defrag, ?_⟩
        dsimp only [afterTimeout]
        split
        · exact sound
        · trivial
      · cases taken
  | drop =>
      simp only [step] at taken
      split at taken <;> cases taken <;> exact ⟨solid.defrag, trivial⟩
  | call =>
      simp only [step] at taken
      split at taken <;> cases taken <;> exact ⟨solid.defrag, sound⟩
  | app =>
      rcases appStep_reader taken with ⟨defrag, reader⟩
      exact ⟨defrag ▸ solid.defrag, reader ▸ solid.reader⟩
  | leave =>
      simp only [step] at taken
      split at taken <;> cases taken <;> exact ⟨solid.defrag, sound⟩

/-! ## The effect of a step -/

/-- The invariant is about the queues that the ring holds. -/
theorem Invariant.here {queues : Priority → List ReadBatch}
    (holds : Invariant state queues) :
    Invariant state state.ring.queue := by
  rw [holds.ring.queue_eq]
  exact holds

/-- Nothing happens to the rings and the history. -/
theorem effect_keep (ring : after.ring.inner = state.ring.inner)
    (inserted : after.inserted = state.inserted)
    (removals : after.removals = state.removals)
    (got : after.got = state.got) :
    Effect (view state) (view after) := by
  have same : view after = view state := by
    rw [view, view, RingBuf.Spsc.queue, RingBuf.Spsc.queue, ring, inserted,
      removals, got]
  rw [same]
  exact .keep

theorem readerStep_effect (holds : Invariant state state.ring.queue)
    (solid : Solid state) (taken : readerStep state = some after) :
    Effect (view state) (view after) := by
  have facts := holds.reader
  have sound := solid.reader
  unfold readerStep at taken
  split at taken
  · rename_i batch _
    cases taken
    exact effect_keep (holds.ring.isFull batch.qos.priority).2.1 rfl rfl
      rfl
  · rename_i batch point
    cases taken
    rw [point] at facts sound
    have inserted := (holds.ring.insert facts batch).queue_eq
    have same : view (insert state batch) =
        { view state with
          queue := Priority.update state.ring.queue batch.qos.priority
            (state.ring.queue batch.qos.priority ++ [batch])
          inserted := Priority.update state.inserted batch.qos.priority
            (state.inserted batch.qos.priority ++ [batch]) } := by
      simp only [view, insert, inserted]
    rw [same]
    exact .insert batch sound
  · cases taken
    exact effect_keep rfl rfl rfl rfl
  · cases taken
    exact effect_keep rfl rfl rfl rfl
  · cases taken
    exact effect_keep rfl rfl rfl rfl
  · cases taken

theorem inspect_effect (holds : Invariant state state.ring.queue)
    {id : BatchId} {batch : ReadBatch} {rest : List ReadBatch}
    (queue : state.ring.queue id.ring = batch :: rest)
    (taken : inspect state id batch = some after) :
    Effect (view state) (view after) := by
  unfold inspect at taken
  dsimp only at taken
  split at taken
  · cases taken
    exact effect_keep rfl rfl rfl rfl
  · split at taken
    · cases taken
    · cases taken
      exact effect_keep rfl rfl rfl rfl
    · rename_i t qos changed next
      cases taken
      have front := (holds.ring.setFront queue changed).queue_eq
      simp only [view, front]
      exact .next queue next

theorem take_effect (holds : Invariant state state.ring.queue)
    {round : Round} {q : Priority} (point : state.app = .take round q)
    {batch : ReadBatch} (front : state.ring.front q = some batch) :
    Effect (view state) (view (take state round q batch)) := by
  have facts := holds.app
  rw [point] at facts
  rcases facts with ⟨rfl, element, other, rest, found⟩
  have same := (holds.ring.front found.queue).symm.trans front
  cases same
  have removed := (holds.ring.remove element).queue_eq
  rw [found.queue] at removed
  simp only [view, take, removed]
  exact @Effect.remove (view state)
    ⟨round, ⟨_, state.taken round.peeked.ring⟩, batch⟩ rest found.queue

theorem appStep_effect (holds : Invariant state state.ring.queue)
    (taken : appStep state = some after) :
    Effect (view state) (view after) := by
  have facts := holds.app
  unfold appStep at taken
  split at taken
  · rename_i p _
    cases taken
    exact effect_keep (holds.ring.isEmpty p).2.1 rfl rfl rfl
  · rename_i id point
    rw [point] at facts
    cases found : state.ring.queue id.ring with
    | nil => exact absurd found facts.1
    | cons batch rest =>
        rw [holds.ring.front found] at taken
        exact inspect_effect holds found taken
  · rename_i q _
    cases taken
    exact effect_keep (holds.ring.isEmpty q).2.1 rfl rfl rfl
  · rename_i point
    split at taken
    · cases taken
    · rename_i front
      cases taken
      exact take_effect holds point front
  · cases taken
    exact effect_keep rfl rfl rfl rfl
  · cases taken
    exact effect_keep rfl rfl rfl rfl
  · cases taken
    exact effect_keep rfl rfl rfl rfl
  · cases taken
    exact effect_keep rfl rfl rfl rfl
  · cases taken
    exact effect_keep rfl rfl rfl rfl
  · cases taken
  · cases taken

/-- What a step does to the rings and the history. -/
theorem step_effect {action : Action}
    (holds : Invariant state state.ring.queue) (solid : Solid state)
    (taken : step state action = some after) :
    Effect (view state) (view after) := by
  cases action with
  | push chunk fragMaxSize =>
      simp only [step] at taken
      split at taken
      · split at taken
        · cases taken
        · split at taken
          · cases taken
          · cases taken
            exact effect_keep rfl rfl rfl rfl
      · cases taken
  | reader => exact readerStep_effect holds solid taken
  | deadline =>
      simp only [step] at taken
      split at taken <;> cases taken
      exact effect_keep rfl rfl rfl rfl
  | room =>
      simp only [step] at taken
      split at taken
      · split at taken
        · cases taken
          exact effect_keep rfl rfl rfl rfl
        · cases taken
      · cases taken
  | expired =>
      simp only [step] at taken
      split at taken <;> cases taken
      exact effect_keep rfl rfl rfl rfl
  | drop =>
      simp only [step] at taken
      split at taken <;> cases taken <;> exact effect_keep rfl rfl rfl rfl
  | call =>
      simp only [step] at taken
      split at taken <;> cases taken <;> exact effect_keep rfl rfl rfl rfl
  | app => exact appStep_effect holds taken
  | leave =>
      simp only [step] at taken
      split at taken <;> cases taken <;> exact effect_keep rfl rfl rfl rfl

/-! ## The fate of a batch -/

/-- The messages of a removed batch: those returned, and those lost. -/
structure Fate where
  delivered : List (List UInt8)
  discarded : List (List UInt8)

/-- Only a droppable batch loses messages. -/
structure Fate.Of (p : Priority) (batch : ReadBatch) (fate : Fate) :
    Prop where
  holds : HoldsMessages p batch (fate.delivered ++ fate.discarded)
  dropped : fate.discarded ≠ [] →
    batch.qos.congestionControl = .drop

/--
The batches still in a ring, as they were written and as they are now.  Some
messages of the front batch have been returned already.
-/
inductive Live (p : Priority) :
    List (List UInt8) → List ReadBatch → List ReadBatch → Prop
  | empty : Live p [] [] []
  | front {original current : ReadBatch} {rest : List ReadBatch}
      {delivered left : List (List UInt8)}
      (whole : HoldsMessages p original (delivered ++ left))
      (holds : HoldsMessages p current left)
      (sameQos : current.qos = original.qos)
      (later : ∀ batch ∈ rest, batch.qos.priority = p ∧ batch.Sound) :
      Live p delivered (original :: rest) (current :: rest)

/-- Every batch written has met its fate or is still in its ring. -/
def Ledger (p : Priority) (view : View) : Prop :=
  ∃ old live fates delivered,
    view.inserted p = old ++ live ∧
      List.Forall₂ (Fate.Of p) old fates ∧
      returned p view.got = fates.flatMap Fate.delivered ++ delivered ∧
      Live p delivered live (view.queue p)

/-- A sound batch of a priority holds some messages. -/
theorem holdsMessages_exists {p : Priority} {batch : ReadBatch}
    (priority : batch.qos.priority = p) (sound : batch.Sound) :
    ∃ messages, HoldsMessages p batch messages := by
  rcases remaining_exists batch.rest with ⟨messages, remaining⟩
  exact ⟨messages, priority, sound, remaining⟩

/-- Batches that nothing has been returned from. -/
theorem live_fresh {p : Priority} {batches : List ReadBatch}
    (fresh : ∀ batch ∈ batches, batch.qos.priority = p ∧ batch.Sound) :
    Live p [] batches batches := by
  cases batches with
  | nil => exact .empty
  | cons batch rest =>
      rw [List.forall_mem_cons] at fresh
      rcases holdsMessages_exists fresh.1.1 fresh.1.2 with ⟨_, holds⟩
      exact .front holds holds rfl fresh.2

/-- One more batch is written behind the others. -/
theorem Live.concat {p : Priority} {delivered : List (List UInt8)}
    {live queue : List ReadBatch} (holds : Live p delivered live queue)
    {batch : ReadBatch} (priority : batch.qos.priority = p)
    (sound : batch.Sound) :
    Live p delivered (live ++ [batch]) (queue ++ [batch]) := by
  cases holds with
  | empty =>
      apply live_fresh
      rw [List.nil_append, List.forall_mem_singleton]
      exact ⟨priority, sound⟩
  | front whole current sameQos later =>
      refine .front whole current sameQos ?_
      intro other member
      rcases List.mem_append.1 member with old | new
      · exact later other old
      · cases List.mem_singleton.1 new
        exact ⟨priority, sound⟩

/-- The front batch returns its next message. -/
theorem Live.next {p : Priority} {delivered : List (List UInt8)}
    {live rest : List ReadBatch} {batch changed : ReadBatch}
    (holds : Live p delivered live (batch :: rest)) {t : Bytes}
    {qos : QoS} (next : batch.next = .ok (some (t, qos, changed))) :
    qos.priority = p ∧
      Live p (delivered ++ [t.toVec]) live (changed :: rest) := by
  cases holds with
  | @front original _ _ _ left whole current sameQos later =>
      have spec := current.next_eq
      cases left with
      | nil => cases next.symm.trans spec
      | cons message left =>
          rcases spec with ⟨_, _, same, rfl, after⟩
          cases next.symm.trans same
          refine ⟨current.priority_eq, ?_⟩
          refine .front ?_ after ?_ later
          · rwa [List.append_assoc]
          · rw [← sameQos]
            exact (ReadBatch.next_qos next).2

/-- The front batch is removed. -/
theorem Live.remove {p : Priority} {delivered : List (List UInt8)}
    {live rest : List ReadBatch} {batch : ReadBatch}
    (holds : Live p delivered live (batch :: rest)) {round : Round}
    (spent : round.Spent batch) :
    ∃ original fate, live = original :: rest ∧ Fate.Of p original fate ∧
      fate.delivered = delivered ∧ Live p [] rest rest := by
  cases holds with
  | @front original _ _ _ left whole current sameQos later =>
      refine ⟨original, ⟨delivered, left⟩, rfl, ⟨whole, ?_⟩, rfl,
        live_fresh later⟩
      intro lost
      rcases spent with ⟨_, droppable⟩ | finished
      · rw [← sameQos]
        exact droppable
      · have spec := current.next_eq
        cases left with
        | nil => exact absurd rfl lost
        | cons message left =>
            rcases spec with ⟨_, _, same, _⟩
            cases finished.symm.trans same

/-- Every effect keeps the ledgers, when batches removed are spent. -/
theorem Effect.ledger {before after : View} (effect : Effect before after)
    (justified : ∀ removal ∈ after.removals, removal.Justified)
    (ledgers : ∀ p, Ledger p before) (p : Priority) : Ledger p after := by
  rcases ledgers p with
    ⟨old, live, fates, delivered, split, met, got, holds⟩
  cases effect with
  | keep => exact ⟨old, live, fates, delivered, split, met, got, holds⟩
  | insert batch sound =>
      by_cases same : p = batch.qos.priority
      · subst same
        refine ⟨old, live ++ [batch], fates, delivered, ?_, met, got, ?_⟩
        · simp only [Priority.update_same, split, List.append_assoc]
        · simp only [Priority.update_same]
          exact holds.concat rfl sound
      · refine ⟨old, live, fates, delivered, ?_, met, got, ?_⟩
        · simpa only [Priority.update_other _ same]
        · simpa only [Priority.update_other _ same]
  | @next q batch changed rest t qos queue next =>
      by_cases same : p = q
      · subst same
        rw [queue] at holds
        rcases holds.next next with ⟨priority, after⟩
        refine ⟨old, live, fates, delivered ++ [t.toVec], split, met, ?_,
          ?_⟩
        · simp only [returned_append, got, returned_singleton, priority,
            if_true, List.append_assoc]
        · simpa only [Priority.update_same]
      · rcases ledgers q with ⟨_, _, _, _, _, _, _, there⟩
        rw [queue] at there
        have priority := (there.next next).1
        have other : ¬ qos.priority = p := by
          rw [priority]
          exact fun equal => same equal.symm
        refine ⟨old, live, fates, delivered, split, met, ?_, ?_⟩
        · simp only [returned_append, got, returned_singleton, other,
            if_false, List.append_nil]
        · simpa only [Priority.update_other _ same]
  | @remove removal rest queue =>
      have spent := (justified removal
        (List.mem_append_right _ (List.mem_singleton_self _))).spent
      by_cases same : p = removal.removed.ring
      · subst same
        rw [queue] at holds
        rcases holds.remove spent with
          ⟨original, fate, rfl, fated, rfl, fresh⟩
        refine ⟨old ++ [original], rest, fates ++ [fate], [], ?_, ?_, ?_,
          ?_⟩
        · rw [split, List.append_assoc]
          rfl
        · exact List.rel_append met (.cons fated .nil)
        · rw [got, List.flatMap_append, List.append_nil]
          simp
        · simpa only [Priority.update_same]
      · refine ⟨old, live, fates, delivered, split, met, got, ?_⟩
        simpa only [Priority.update_other _ same]

theorem ledger_init (exponent : Nat) (small : exponent ≤ 7)
    (p : Priority) : Ledger p (view (init exponent small)) := by
  refine ⟨[], [], [], [], rfl, .nil, rfl, ?_⟩
  have queue :=
    (@RingBuf.Spsc.holds_new ReadBatch exponent small).queue_eq
  simp only [view, init, queue]
  exact .empty

end Interleaved
end Rx
end Thubo
