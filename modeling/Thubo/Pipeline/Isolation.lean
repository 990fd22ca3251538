import Thubo.Pipeline.Rx

/-!
# One priority at a time

The four priorities share the receive pipeline, but not its state: a push
reads and changes the streams, the ring and the congestion bit of its own
priority, and a pull changes a ring only when the rings above it are empty.

Any run of calls therefore looks, to one priority, like the run of its own
pushes and of some of the pulls.
-/

namespace Thubo
namespace Rx

/-! ## A push stays within its priority -/

/-- The streams of a priority have the same buffers. -/
def Defragmentation.SameAt (p : Priority)
    (defrag other : Defragmentation) : Prop :=
  ∀ cc, other.get ⟨cc, p⟩ = defrag.get ⟨cc, p⟩

/-- Adding a fragment reads and changes the buffer of its stream only. -/
theorem acceptFragment_other {defrag other : Defragmentation}
    {header : MessageHeader}
    (same : other.get (stream header.qos) = defrag.get (stream header.qos))
    (fragId : SeqNum) (kind : FragmentKind) (view : Option Bytes)
    (capacity : Nat) :
    let added := acceptFragment defrag header fragId kind view capacity
    acceptFragment other header fragId kind view capacity =
      (added.1, other.set (stream header.qos)
        (added.2.get (stream header.qos))) := by
  -- a branch that stores nothing stores the buffer where it is
  have stays : other.set (stream header.qos)
      (defrag.get (stream header.qos)) = other := by
    rw [← same, Defragmentation.set_get]
  unfold acceptFragment
  simp only [same]
  cases kind with
  | first =>
      cases view with
      | none => simp
      | some bytes =>
          dsimp only
          split <;> simp
  | more =>
      cases view with
      | none => simp [stays]
      | some bytes =>
          dsimp only
          split <;> simp
  | last =>
      cases view with
      | none => simp [stays]
      | some bytes =>
          dsimp only
          split <;> simp [stays]

/-- A reassembled message has the quality of service of its last fragment. -/
theorem acceptFragment_qos {defrag : Defragmentation}
    {header : MessageHeader} {fragId : SeqNum} {kind : FragmentKind}
    {view : Option Bytes} {capacity : Nat} {batch : ReadBatch}
    (delivered : (acceptFragment defrag header fragId kind view
      capacity).1 = .deliver batch) : batch.qos = header.qos := by
  unfold acceptFragment at delivered
  cases kind <;> cases view <;> dsimp only at delivered
  case last.some bytes =>
    split at delivered
    · cases delivered
    · cases delivered
      rfl
  all_goals
    try split at delivered
    all_goals cases delivered

/-- What decoding a batch of one priority does to any table. -/
structure Decodes (defrag : Defragmentation) (p : Priority)
    (decode : Defragmentation → Except Fault (Decoded × Defragmentation))
    (decoded : Decoded) (changed : Defragmentation) : Prop where
  own : ∀ other, defrag.SameAt p other →
    ∃ after, decode other = .ok (decoded, after) ∧ changed.SameAt p after
  elsewhere : ∀ q, q ≠ p → changed.SameAt q defrag
  delivers : ∀ batch, decoded = .deliver batch → batch.qos.priority = p

variable {defrag changed : Defragmentation} {decoded : Decoded}
variable {bytes : Bytes} {limit : Nat} {p : Priority}

/-- A batch without a header changes nothing. -/
theorem decodeBatch_nowhere (nowhere : destination bytes = none)
    (ran : decodeBatch defrag bytes limit = .ok (decoded, changed)) :
    decoded = .reject .decodingFailed ∧ changed = defrag := by
  cases decodeBatch_decoding bytes limit with
  | faults fault always =>
      rw [always] at ran
      cases ran
  | invalid _ always =>
      rw [always] at ran
      cases ran
      exact ⟨rfl, rfl⟩
  | frame batch _ own _ =>
      rw [nowhere] at own
      cases own
  | fragment header fragId kind view own _ =>
      rw [nowhere] at own
      cases own

/-- Decoding a batch stays within the priority in its header. -/
theorem decodeBatch_decodes (there : destination bytes = some p)
    (ran : decodeBatch defrag bytes limit = .ok (decoded, changed)) :
    Decodes defrag p (fun other => decodeBatch other bytes limit) decoded
      changed := by
  cases decodeBatch_decoding bytes limit with
  | faults fault always =>
      rw [always] at ran
      cases ran
  | invalid nowhere _ =>
      rw [there] at nowhere
      cases nowhere
  | frame batch _ own always =>
      rw [always] at ran
      cases ran
      refine ⟨fun other same => ⟨other, always other, same⟩,
        fun _ _ _ => rfl, ?_⟩
      intro other same
      cases same
      exact (Option.some.inj (there.symm.trans own)).symm
  | fragment header fragId kind view own always =>
      have here : header.qos.priority = p :=
        (Option.some.inj (there.symm.trans own)).symm
      have added := Except.ok.inj ((always defrag).symm.trans ran)
      have all : ∀ other : Defragmentation,
          other.get (stream header.qos) = defrag.get (stream header.qos) →
            decodeBatch other bytes limit = .ok (decoded,
              other.set (stream header.qos)
                (changed.get (stream header.qos))) := by
        intro other same
        have moved := acceptFragment_other same fragId kind view limit
        dsimp only at moved
        rw [always other, moved, added]
      have stored : changed = defrag.set (stream header.qos)
          (changed.get (stream header.qos)) :=
        congrArg Prod.snd (Except.ok.inj (ran.symm.trans (all defrag rfl)))
      constructor
      · intro other same
        refine ⟨_, all other ?_, ?_⟩
        · rw [stream, here]
          exact same _
        · intro cc
          rw [stored]
          simp only [Defragmentation.get_set]
          split
          · rfl
          · exact same cc
      · intro q distinct cc
        have apart : (⟨cc, q⟩ : Stream) ≠ stream header.qos := by
          intro same
          exact distinct ((congrArg Stream.priority same).trans here)
        rw [stored, Defragmentation.get_set, if_neg apart]
      · intro batch delivered
        rw [acceptFragment_qos ((congrArg Prod.fst added).trans delivered),
          here]

namespace Pipeline

/-! ## What a priority sees of the pipeline -/

/-- Every batch is in the ring of its priority. -/
def Sorted (state : Pipeline) : Prop :=
  ∀ p, ∀ batch ∈ state.ring p, batch.qos.priority = p

/-- A second pipeline with the same ring, streams and congestion bit. -/
structure SameLane (p : Priority) (state lane : Pipeline) : Prop where
  capacity : lane.capacity = state.capacity
  ring : lane.ring p = state.ring p
  streams : state.defrag.SameAt p lane.defrag
  congested : lane.congested p = state.congested p

/-- No other ring holds a batch. -/
def Alone (p : Priority) (lane : Pipeline) : Prop :=
  ∀ q, q ≠ p → lane.ring q = []

variable {state lane after : Pipeline} {batch : ReadBatch} {timer : Timer}
variable {result : Except SendError Bool} {q : Priority}

theorem sorted_new (capacity : Nat) : (new capacity).Sorted := by
  intro p batch member
  cases member

/-- What happens at another priority is not seen. -/
theorem SameLane.of_eq (same : SameLane p state lane)
    (capacity : after.capacity = state.capacity)
    (ring : after.ring p = state.ring p)
    (streams : after.defrag.SameAt p state.defrag)
    (congested : after.congested p = state.congested p) :
    SameLane p after lane where
  capacity := same.capacity.trans capacity.symm
  ring := same.ring.trans ring.symm
  streams cc := (same.streams cc).trans (streams cc)
  congested := same.congested.trans congested.symm

/-! ## The loop around the ring -/

/-- Room is looked for in the ring of the batch. -/
theorem enqueue_lane (same : SameLane batch.qos.priority state lane)
    (timer : Timer) :
    (lane.enqueue batch timer).1 = (state.enqueue batch timer).1 ∧
      SameLane batch.qos.priority (state.enqueue batch timer).2
        (lane.enqueue batch timer).2 := by
  unfold enqueue
  simp only [same.ring, same.capacity, same.congested]
  split
  · exact ⟨rfl, rfl, by simp, same.streams, same.congested⟩
  · cases batch.qos.congestionControl <;> cases timer <;> dsimp only
    · exact ⟨rfl, same⟩
    · exact ⟨rfl, rfl, same.ring, same.streams, by simp⟩
    · split <;> exact ⟨rfl, same⟩
    · split
      · exact ⟨rfl, same⟩
      · exact ⟨rfl, rfl, same.ring, same.streams, by simp⟩

/-- Only the ring and the bit of the batch change. -/
theorem enqueue_elsewhere (state : Pipeline) (batch : ReadBatch)
    (timer : Timer) (distinct : p ≠ batch.qos.priority) :
    SameLane p (state.enqueue batch timer).2 state := by
  have own : SameLane p state state := ⟨rfl, rfl, fun _ => rfl, rfl⟩
  unfold enqueue
  dsimp only
  split
  · exact own.of_eq rfl (by simp [distinct]) (fun _ => rfl) rfl
  · cases batch.qos.congestionControl <;> cases timer <;> dsimp only
    · exact own
    · exact own.of_eq rfl rfl (fun _ => rfl) (by simp [distinct])
    · split <;> exact own
    · split
      · exact own
      · exact own.of_eq rfl rfl (fun _ => rfl) (by simp [distinct])

theorem enqueue_sorted (sorted : state.Sorted) (batch : ReadBatch)
    (timer : Timer) : (state.enqueue batch timer).2.Sorted := by
  unfold enqueue
  dsimp only
  split
  · intro p other member
    simp only [Priority.update_apply] at member
    split at member
    · rename_i own
      rcases List.mem_append.1 member with old | new
      · exact (sorted _ other old).trans own.symm
      · rw [List.mem_singleton.1 new, own]
    · exact sorted p other member
  · cases batch.qos.congestionControl <;> cases timer <;> dsimp only
    · exact sorted
    · exact sorted
    · split <;> exact sorted
    · split <;> exact sorted

/-! ## Push -/

/-- What push does after decoding. -/
def finish (state : Pipeline) (timer : Timer) :
    Decoded → Except SendError Bool × Pipeline
  | .reject error => (.error error, state)
  | .kept => (.ok true, state)
  | .deliver batch => state.enqueue batch timer

theorem push_finish {defrag : Defragmentation} {decoded : Decoded}
    (decodes : decodeBatch state.defrag bytes limit =
      .ok (decoded, defrag)) (timer : Timer) :
    state.push bytes limit timer =
      .ok (finish { state with defrag := defrag } timer decoded) := by
  rw [push, decodes, ok_bind]
  cases decoded <;> rfl

/-- A push that returns has decoded its batch. -/
theorem push_decoded
    (ran : state.push bytes limit timer = .ok (result, after)) :
    ∃ decoded defrag,
      decodeBatch state.defrag bytes limit = .ok (decoded, defrag) ∧
        finish { state with defrag := defrag } timer decoded =
          (result, after) := by
  cases decodes : decodeBatch state.defrag bytes limit with
  | error fault =>
      rw [push, decodes] at ran
      cases ran
  | ok decoded =>
      rcases decoded with ⟨decoded, defrag⟩
      rw [push_finish decodes] at ran
      exact ⟨decoded, defrag, rfl, Except.ok.inj ran⟩

/-- A push to the priority ends in the same way on the second pipeline. -/
theorem push_lane (same : SameLane p state lane)
    (there : destination bytes = some p)
    (ran : state.push bytes limit timer = .ok (result, after)) :
    ∃ next, lane.push bytes limit timer = .ok (result, next) ∧
      SameLane p after next := by
  rcases push_decoded ran with ⟨decoded, defrag, decodes, finished⟩
  have within := decodeBatch_decodes there decodes
  rcases within.own lane.defrag same.streams with ⟨other, moved, streams⟩
  have stored : SameLane p { state with defrag := defrag }
      { lane with defrag := other } :=
    ⟨same.capacity, same.ring, streams, same.congested⟩
  rw [push_finish moved]
  cases decoded with
  | reject error =>
      cases finished
      exact ⟨_, rfl, stored⟩
  | kept =>
      cases finished
      exact ⟨_, rfl, stored⟩
  | deliver batch =>
      have own := within.delivers batch rfl
      subst own
      rcases enqueue_lane stored timer with ⟨results, lanes⟩
      rw [finish] at finished ⊢
      rw [finished] at results lanes
      exact ⟨(enqueue { lane with defrag := other } batch timer).2,
        congrArg Except.ok (Prod.ext results rfl), lanes⟩

/-- A push to another priority, or without a header, is not seen. -/
theorem push_elsewhere (same : SameLane p state lane)
    (elsewhere : destination bytes ≠ some p)
    (ran : state.push bytes limit timer = .ok (result, after)) :
    SameLane p after lane := by
  rcases push_decoded ran with ⟨decoded, defrag, decodes, finished⟩
  cases there : destination bytes with
  | none =>
      rcases decodeBatch_nowhere there decodes with ⟨rejected, unchanged⟩
      subst rejected unchanged
      cases finished
      exact same
  | some q =>
      have within := decodeBatch_decodes there decodes
      have distinct : p ≠ q := by
        rintro rfl
        exact elsewhere there
      have stored : SameLane p { state with defrag := defrag } lane :=
        same.of_eq rfl rfl (fun cc => (within.elsewhere p distinct cc)) rfl
      cases decoded with
      | reject error =>
          cases finished
          exact stored
      | kept =>
          cases finished
          exact stored
      | deliver batch =>
          have own := within.delivers batch rfl
          have apart := enqueue_elsewhere { state with defrag := defrag }
            batch timer (own ▸ distinct)
          rw [finish] at finished
          rw [finished] at apart
          exact stored.of_eq apart.capacity.symm apart.ring.symm
            (fun cc => (apart.streams cc)) apart.congested.symm

/-- The other rings are not filled by a push to the priority. -/
theorem push_alone (alone : Alone p lane)
    (there : destination bytes = some p)
    (ran : lane.push bytes limit timer = .ok (result, after)) :
    Alone p after := by
  intro q distinct
  have own : SameLane q lane lane := ⟨rfl, rfl, fun _ => rfl, rfl⟩
  have elsewhere : destination bytes ≠ some q := by
    rw [there]
    intro same
    exact distinct (Option.some.inj same).symm
  rw [← (push_elsewhere own elsewhere ran).ring]
  exact alone q distinct

theorem push_sorted (sorted : state.Sorted)
    (ran : state.push bytes limit timer = .ok (result, after)) :
    after.Sorted := by
  rcases push_decoded ran with ⟨decoded, defrag, _, finished⟩
  cases decoded with
  | reject error =>
      cases finished
      exact sorted
  | kept =>
      cases finished
      exact sorted
  | deliver batch =>
      rw [finish] at finished
      have stored : Sorted { state with defrag := defrag } := sorted
      have kept := enqueue_sorted stored batch timer
      rwa [finished] at kept

/-! ## Pull -/

/-- The first batch of a ring leaves without a message. -/
def skip (state : Pipeline) (p : Priority) : Pipeline :=
  (state.unsetCongested p).removeHead p

/-- The first batch of a ring has given a message. -/
def give (state : Pipeline) (p : Priority) (batch : ReadBatch) : Pipeline :=
  (state.unsetCongested p).replaceHead p batch

/-- The congestion bit discards the batch. -/
def Discards (state : Pipeline) (batch : ReadBatch) : Prop :=
  state.congested batch.qos.priority = true ∧
    batch.qos.congestionControl = .drop

variable {rounds : Nat} {more : List ReadBatch} {t : Bytes}
variable {qos : QoS} {advanced : ReadBatch} {message : Option (Bytes × QoS)}

theorem tryPullLoop_idle (rounds : Nat) (nothing : state.ready = none) :
    state.tryPullLoop rounds = .ok (none, state) := by
  cases rounds with
  | zero => rfl
  | succ rounds => rw [tryPullLoop, nothing]

/-- A round that skips the first batch. -/
theorem tryPullLoop_skip (rounds : Nat) (ready : state.ready = some p)
    (ring : state.ring p = batch :: more) (own : batch.qos.priority = p)
    (skips : state.Discards batch ∨ batch.next = .ok none) :
    state.tryPullLoop (rounds + 1) = (state.skip p).tryPullLoop rounds := by
  rw [tryPullLoop, ready]
  dsimp only
  rw [ring]
  dsimp only
  split
  · rw [own]
    rfl
  · rename_i kept
    rw [skips.resolve_left kept, own]
    rfl

/-- A round that takes a message from the first batch. -/
theorem tryPullLoop_give (rounds : Nat) (ready : state.ready = some p)
    (ring : state.ring p = batch :: more) (own : batch.qos.priority = p)
    (kept : ¬ state.Discards batch)
    (next : batch.next = .ok (some (t, qos, advanced))) :
    state.tryPullLoop (rounds + 1) =
      .ok (some (t, qos), state.give p advanced) := by
  unfold Discards at kept
  rw [tryPullLoop, ready]
  dsimp only
  rw [ring]
  dsimp only
  rw [if_neg kept, next, own]
  rfl

/-- A round of a loop that returns. -/
inductive Round (rounds : Nat) (state : Pipeline)
    (message : Option (Bytes × QoS)) (after : Pipeline) : Prop where
  | idle (ready : state.ready = none) (empty : message = none)
      (same : after = state)
  | skip (q : Priority) (batch : ReadBatch) (more : List ReadBatch)
      (ready : state.ready = some q) (ring : state.ring q = batch :: more)
      (skips : state.Discards batch ∨ batch.next = .ok none)
      (later : (state.skip q).tryPullLoop rounds = .ok (message, after))
  | give (q : Priority) (batch : ReadBatch) (more : List ReadBatch)
      (t : Bytes) (advanced : ReadBatch)
      (ready : state.ready = some q) (ring : state.ring q = batch :: more)
      (kept : ¬ state.Discards batch)
      (next : batch.next = .ok (some (t, batch.qos, advanced)))
      (found : message = some (t, batch.qos))
      (moved : after = state.give q advanced)

theorem tryPullLoop_round (sorted : state.Sorted)
    (ran : state.tryPullLoop (rounds + 1) = .ok (message, after)) :
    Round rounds state message after := by
  cases ready : state.ready with
  | none =>
      rw [tryPullLoop_idle _ ready] at ran
      cases ran
      exact .idle ready rfl rfl
  | some q =>
      rcases ready_some ready with ⟨batch, more, ring⟩
      have own : batch.qos.priority = q :=
        sorted q batch (by rw [ring]; exact List.mem_cons_self ..)
      by_cases discards : state.Discards batch
      · rw [tryPullLoop_skip _ ready ring own (.inl discards)] at ran
        exact .skip q batch more ready ring (.inl discards) ran
      · cases next : batch.next with
        | error fault =>
            unfold Discards at discards
            rw [tryPullLoop, ready] at ran
            dsimp only at ran
            rw [ring] at ran
            dsimp only at ran
            rw [if_neg discards, next] at ran
            cases ran
        | ok found =>
            cases found with
            | none =>
                rw [tryPullLoop_skip _ ready ring own (.inr next)] at ran
                exact .skip q batch more ready ring (.inr next) ran
            | some found =>
                rcases found with ⟨t, qos, advanced⟩
                have same := (ReadBatch.next_qos next).1
                subst same
                rw [tryPullLoop_give _ ready ring own discards next] at ran
                cases ran
                exact .give q batch more t advanced ready ring discards next
                  rfl rfl

/-! ### A round, seen from one priority -/

theorem give_sorted (sorted : state.Sorted)
    (ring : state.ring q = batch :: more)
    (same : advanced.qos = batch.qos) : (state.give q advanced).Sorted := by
  intro p other member
  simp only [give, replaceHead, unsetCongested, Priority.update_apply]
    at member
  split at member
  · rename_i own
    subst own
    rcases List.mem_cons.1 member with first | later
    · rw [first, same]
      exact sorted _ batch (by rw [ring]; exact List.mem_cons_self ..)
    · exact sorted _ other (List.mem_of_mem_tail later)
  · exact sorted p other member

theorem skip_sorted (sorted : state.Sorted) (q : Priority) :
    (state.skip q).Sorted := by
  intro p batch member
  simp only [skip, removeHead, unsetCongested, Priority.update_apply]
    at member
  split at member
  · rename_i own
    subst own
    exact sorted _ batch (List.mem_of_mem_tail member)
  · exact sorted p batch member

theorem tryPullLoop_sorted (sorted : state.Sorted)
    (ran : state.tryPullLoop rounds = .ok (message, after)) :
    after.Sorted := by
  induction rounds generalizing state with
  | zero =>
      cases ran
      exact sorted
  | succ rounds hypothesis =>
      cases tryPullLoop_round sorted ran with
      | idle _ _ same => exact same ▸ sorted
      | skip q batch more _ _ _ later =>
          exact hypothesis (skip_sorted sorted q) later
      | give q batch more t advanced _ ring _ next _ moved =>
          exact moved ▸ give_sorted sorted ring (ReadBatch.next_qos next).2

theorem SameLane.skip (same : SameLane p state lane) :
    SameLane p (state.skip p) (lane.skip p) where
  capacity := same.capacity
  ring := by simp [Pipeline.skip, removeHead, unsetCongested, same.ring]
  streams := same.streams
  congested := by simp [Pipeline.skip, removeHead, unsetCongested]

theorem SameLane.skip_other (same : SameLane p state lane)
    (distinct : p ≠ q) : SameLane p (state.skip q) lane :=
  same.of_eq rfl
    (by simp [Pipeline.skip, removeHead, unsetCongested, distinct])
    (fun _ => rfl)
    (by simp [Pipeline.skip, removeHead, unsetCongested, distinct])

theorem SameLane.give (same : SameLane p state lane) (batch : ReadBatch) :
    SameLane p (state.give p batch) (lane.give p batch) where
  capacity := same.capacity
  ring := by simp [Pipeline.give, replaceHead, unsetCongested, same.ring]
  streams := same.streams
  congested := by simp [Pipeline.give, replaceHead, unsetCongested]

theorem SameLane.give_other (same : SameLane p state lane)
    (distinct : p ≠ q) (batch : ReadBatch) :
    SameLane p (state.give q batch) lane :=
  same.of_eq rfl
    (by simp [Pipeline.give, replaceHead, unsetCongested, distinct])
    (fun _ => rfl)
    (by simp [Pipeline.give, replaceHead, unsetCongested, distinct])

theorem Alone.skip (alone : Alone p lane) : Alone p (lane.skip p) := by
  intro q distinct
  simp [Pipeline.skip, removeHead, unsetCongested, distinct,
    alone q distinct]

theorem Alone.give (alone : Alone p lane) (batch : ReadBatch) :
    Alone p (lane.give p batch) := by
  intro q distinct
  simp [Pipeline.give, replaceHead, unsetCongested, distinct,
    alone q distinct]

/-- The only ring with a batch is ready. -/
theorem Alone.ready (alone : Alone p lane)
    (ring : lane.ring p = batch :: more) : lane.ready = some p := by
  apply Priority.find?_ALL_eq_some.2
  refine ⟨by simp [ring], ?_⟩
  intro q before
  have distinct : q ≠ p := by
    rintro rfl
    exact Nat.lt_irrefl _ before
  simp [alone q distinct]

theorem Alone.idle (alone : Alone p lane) (empty : lane.ring p = []) :
    lane.ready = none := by
  apply List.find?_eq_none.2
  intro q _
  by_cases own : q = p
  · simp [own, empty]
  · simp [alone q own]

theorem size_skip (ring : state.ring p = batch :: more) :
    (state.skip p).size + 1 = state.size := by
  have unset : (state.unsetCongested p).ring p = batch :: more := ring
  exact size_removeHead unset

/-- What a priority gets of the answer to a pull. -/
def toward (p : Priority) (message : Option (Bytes × QoS)) :
    Option (Bytes × QoS) :=
  message.filter fun found => found.2.priority = p

/-- A pull, seen from one priority. -/
inductive Sees (p : Priority) (state lane : Pipeline)
    (message : Option (Bytes × QoS)) (after : Pipeline) : Prop where
  /-- The ring is not reached; it is empty when the rings above it are. -/
  | apart (same : SameLane p after lane) (nothing : toward p message = none)
      (behind : (∀ q : Priority, q.toNat < p.toNat → state.ring q = []) →
        state.ring p = [])
  /-- The second pipeline is pulled as well. -/
  | pulls (heard : Option (Bytes × QoS)) (next : Pipeline)
      (pulled : ∀ rounds, lane.size < rounds →
        lane.tryPullLoop rounds = .ok (heard, next))
      (same : SameLane p after next) (alone : Alone p next)
      (agrees : toward p heard = toward p message)

/-- A higher ring that holds a batch, or an empty ring behind the ready one. -/
theorem behind_ready (ready : state.ready = some q)
    (ring : state.ring q = batch :: more) (distinct : q ≠ p)
    (above : ∀ r : Priority, r.toNat < p.toNat → state.ring r = []) :
    state.ring p = [] := by
  rcases Nat.lt_trichotomy q.toNat p.toNat with before | same | beyond
  · rw [above q before] at ring
    cases ring
  · exact absurd (Priority.toNat_injective same) distinct
  · exact ready_above ready p beyond

/--
By induction on the rounds: a round at another ring is not seen, and a round
at this one, which finds every ring above it empty, is repeated.
-/
theorem tryPullLoop_sees (sorted : state.Sorted)
    (enough : state.size < rounds) (same : SameLane p state lane)
    (alone : Alone p lane)
    (ran : state.tryPullLoop rounds = .ok (message, after)) :
    Sees p state lane message after := by
  induction rounds generalizing state lane with
  | zero => exact absurd enough (Nat.not_lt_zero _)
  | succ rounds hypothesis =>
      cases tryPullLoop_round sorted ran with
      | idle ready empty unchanged =>
          subst empty unchanged
          exact .apart same rfl fun _ => ready_none ready p
      | skip q batch more ready ring skips later =>
          have fewer := size_skip ring
          by_cases own : q = p
          · subst own
            have first : lane.ring q = batch :: more := same.ring.trans ring
            have mine : batch.qos.priority = q :=
              sorted q batch (by rw [ring]; exact List.mem_cons_self ..)
            have repeats : lane.Discards batch ∨ batch.next = .ok none := by
              unfold Discards at skips ⊢
              rwa [mine, same.congested, ← mine]
            have round : ∀ rounds, lane.tryPullLoop (rounds + 1) =
                (lane.skip q).tryPullLoop rounds := fun rounds =>
              tryPullLoop_skip rounds (alone.ready first) first mine repeats
            have smaller := size_skip first
            cases hypothesis (skip_sorted sorted q) (by omega) same.skip
                alone.skip later with
            | apart kept nothing behind =>
                have empty : (state.skip q).ring q = [] := by
                  apply behind
                  intro r before
                  have distinct : r ≠ q := by
                    rintro rfl
                    exact Nat.lt_irrefl _ before
                  have above := ready_above ready r before
                  simp [skip, removeHead, unsetCongested, distinct, above]
                refine .pulls none (lane.skip q) ?_ kept alone.skip
                  nothing.symm
                intro rounds' enough'
                cases rounds' with
                | zero => exact absurd enough' (Nat.not_lt_zero _)
                | succ rounds' =>
                    rw [round, tryPullLoop_idle _
                      (alone.skip.idle (same.skip.ring.trans empty))]
            | pulls heard next pulled same alone agrees =>
                refine .pulls heard next ?_ same alone agrees
                intro rounds' enough'
                cases rounds' with
                | zero => exact absurd enough' (Nat.not_lt_zero _)
                | succ rounds' =>
                    rw [round]
                    exact pulled rounds' (by omega)
          · cases hypothesis (skip_sorted sorted q) (by omega)
                (same.skip_other (Ne.symm own)) alone later with
            | apart same nothing _ =>
                exact .apart same nothing (behind_ready ready ring own)
            | pulls heard next pulled same alone agrees =>
                exact .pulls heard next pulled same alone agrees
      | give q batch more t advanced ready ring kept next found moved =>
          subst found moved
          have mine : batch.qos.priority = q :=
            sorted q batch (by rw [ring]; exact List.mem_cons_self ..)
          by_cases own : q = p
          · subst own
            have first : lane.ring q = batch :: more := same.ring.trans ring
            have keeps : ¬ lane.Discards batch := by
              unfold Discards at kept ⊢
              rwa [mine, same.congested, ← mine]
            refine .pulls (some (t, batch.qos)) (lane.give q advanced) ?_
              (same.give advanced) (alone.give advanced) rfl
            intro rounds' enough'
            cases rounds' with
            | zero => exact absurd enough' (Nat.not_lt_zero _)
            | succ rounds' =>
                exact tryPullLoop_give rounds' (alone.ready first) first
                  mine keeps next
          · refine .apart (same.give_other (Ne.symm own) advanced) ?_
              (behind_ready ready ring own)
            simp [toward, mine, own]

/-! ## Every run of calls -/

/-- What a call returns, and what it was given. -/
inductive Observation where
  | pushed (chunk : Chunk) (timer : Timer)
      (result : Except SendError Bool)
  | pulled (message : Option (Bytes × QoS))

/-- One call and what it returns. -/
def observe (fragMaxSize : Nat) (state : Pipeline) :
    Call → Except Fault (Observation × Pipeline)
  | .push chunk timer => do
      let (result, state) ←
        state.push (Bytes.single chunk) fragMaxSize timer
      return (.pushed chunk timer result, state)
  | .tryPull => do
      let (message, state) ← state.tryPull
      return (.pulled message, state)

/-- A sequence of calls and what they return. -/
def trace (fragMaxSize : Nat) : Pipeline → List Call →
    Except Fault (List Observation × Pipeline)
  | state, [] => .ok ([], state)
  | state, next :: calls => do
      let (seen, state) ← state.observe fragMaxSize next
      let (rest, state) ← trace fragMaxSize state calls
      return (seen :: rest, state)

/-- The push is one to the priority, or the message comes from it. -/
def Observation.At (p : Priority) : Observation → Bool
  | .pushed chunk _ _ => destination (Bytes.single chunk) = some p
  | .pulled message => (toward p message).isSome

/-- The call may concern the priority. -/
def Call.At (p : Priority) : Call → Prop
  | .push chunk _ => destination (Bytes.single chunk) = some p
  | .tryPull => True

variable {next : Call} {seen heard : Observation}

/-- Two answers that are the same at a priority are observed as the same. -/
theorem filter_pulled {message heard : Option (Bytes × QoS)}
    (agrees : toward p heard = toward p message) :
    [Observation.pulled heard].filter (Observation.At p) =
      [Observation.pulled message].filter (Observation.At p) := by
  cases got : toward p message with
  | none =>
      simp [Observation.At, agrees, got]
  | some found =>
      have left := (Option.filter_eq_some_iff.1 (agrees.trans got)).1
      have right := (Option.filter_eq_some_iff.1 got).1
      rw [left, right]

theorem observe_sorted (sorted : state.Sorted)
    (ran : state.observe limit next = .ok (seen, after)) :
    after.Sorted := by
  cases next with
  | push chunk timer =>
      cases pushed : state.push (Bytes.single chunk) limit timer with
      | error fault =>
          rw [observe, pushed] at ran
          cases ran
      | ok result =>
          rw [observe, pushed] at ran
          cases ran
          exact push_sorted sorted pushed
  | tryPull =>
      cases pulled : state.tryPull with
      | error fault =>
          rw [observe, pulled] at ran
          cases ran
      | ok result =>
          rw [observe, pulled] at ran
          cases ran
          exact tryPullLoop_sorted sorted pulled

/-- A call of the whole run, seen from one priority. -/
inductive Follows (p : Priority) (limit : Nat) (lane : Pipeline)
    (next : Call) (seen : Observation) (after : Pipeline) : Prop where
  | apart (same : SameLane p after lane) (unseen : seen.At p = false)
  | repeats (own : next.At p) (heard : Observation) (moved : Pipeline)
      (ran : lane.observe limit next = .ok (heard, moved))
      (same : SameLane p after moved) (alone : Alone p moved)
      (agrees : [heard].filter (Observation.At p) =
        [seen].filter (Observation.At p))

theorem observe_follows (sorted : state.Sorted)
    (same : SameLane p state lane) (alone : Alone p lane)
    (ran : state.observe limit next = .ok (seen, after)) :
    Follows p limit lane next seen after := by
  cases next with
  | push chunk timer =>
      cases pushed : state.push (Bytes.single chunk) limit timer with
      | error fault =>
          rw [observe, pushed] at ran
          cases ran
      | ok result =>
          rw [observe, pushed] at ran
          cases ran
          by_cases there : destination (Bytes.single chunk) = some p
          · rcases push_lane same there pushed with ⟨moved, pushes, kept⟩
            refine .repeats there (.pushed chunk timer result.1) moved ?_
              kept (push_alone alone there pushes) rfl
            rw [observe, pushes]
            rfl
          · exact .apart (push_elsewhere same there pushed)
              (decide_eq_false there)
  | tryPull =>
      cases pulled : state.tryPull with
      | error fault =>
          rw [observe, pulled] at ran
          cases ran
      | ok result =>
          rw [observe, pulled] at ran
          cases ran
          cases tryPullLoop_sees sorted (Nat.lt_succ_self _) same alone
              pulled with
          | apart kept nothing _ =>
              refine .apart kept ?_
              rw [Observation.At, nothing]
              rfl
          | pulls heard moved pulls kept alone agrees =>
              have pulls := pulls _ (Nat.lt_succ_self _)
              refine .repeats trivial (.pulled heard) moved ?_ kept alone ?_
              · rw [observe, tryPull, pulls]
                rfl
              · exact filter_pulled agrees

/-- A run that returns begins with a call that returns. -/
theorem trace_cons {calls : List Call} {all : List Observation}
    (ran : trace limit state (next :: calls) = .ok (all, after)) :
    ∃ seen middle rest, state.observe limit next = .ok (seen, middle) ∧
      trace limit middle calls = .ok (rest, after) ∧ all = seen :: rest := by
  cases first : state.observe limit next with
  | error fault =>
      rw [trace, first] at ran
      cases ran
  | ok result =>
      rcases result with ⟨seen, middle⟩
      rw [trace, first, ok_bind] at ran
      dsimp only at ran
      cases later : trace limit middle calls with
      | error fault =>
          rw [later] at ran
          cases ran
      | ok rest =>
          rw [later] at ran
          cases ran
          exact ⟨seen, middle, rest.1, rfl, later, rfl⟩

theorem trace_follows {calls : List Call} {all : List Observation}
    (sorted : state.Sorted) (same : SameLane p state lane)
    (alone : Alone p lane)
    (ran : trace limit state calls = .ok (all, after)) :
    ∃ own heard moved, own.Sublist calls ∧ (∀ next ∈ own, next.At p) ∧
      trace limit lane own = .ok (heard, moved) ∧
        heard.filter (Observation.At p) = all.filter (Observation.At p) ∧
          SameLane p after moved := by
  induction calls generalizing state lane all with
  | nil =>
      cases ran
      exact ⟨[], [], lane, .slnil, fun _ member => (by cases member), rfl,
        rfl, same⟩
  | cons next calls hypothesis =>
      rcases trace_cons ran with ⟨seen, middle, rest, first, later, split⟩
      subst split
      have kept := observe_sorted sorted first
      cases observe_follows sorted same alone first with
      | apart same unseen =>
          rcases hypothesis kept same alone later with
            ⟨own, heard, moved, fewer, mine, traced, agrees, same⟩
          refine ⟨own, heard, moved, fewer.cons _, mine, traced, ?_, same⟩
          rw [agrees, List.filter_cons_of_neg (by simp [unseen])]
      | repeats concerns answer moved observed same alone agrees =>
          rcases hypothesis kept same alone later with
            ⟨own, heard, final, fewer, mine, traced, rests, same⟩
          refine ⟨next :: own, answer :: heard, final, fewer.cons_cons _,
            ?_, ?_, ?_, same⟩
          · exact List.forall_mem_cons.2 ⟨concerns, mine⟩
          · rw [trace, observed, ok_bind]
            dsimp only
            rw [traced]
            rfl
          · rw [← List.singleton_append, List.filter_append, agrees, rests,
              ← List.filter_append, List.singleton_append]

/--
To each priority the receive pipeline is one of its own: every run of calls
gives it the same messages, the same results of its pushes, and the same ring,
streams and congestion bit as the run of its pushes and of some of the pulls.
-/
theorem isolates_of_run {fragMaxSize capacity : Nat} {calls : List Call}
    {seen : List Observation}
    (ran : trace fragMaxSize (new capacity) calls = .ok (seen, state))
    (p : Priority) :
    ∃ own heard lane, own.Sublist calls ∧ (∀ next ∈ own, next.At p) ∧
      trace fragMaxSize (new capacity) own = .ok (heard, lane) ∧
        heard.filter (Observation.At p) = seen.filter (Observation.At p) ∧
          SameLane p state lane := by
  exact trace_follows (sorted_new capacity) ⟨rfl, rfl, fun _ => rfl, rfl⟩
    (fun _ _ => rfl) ran

/-- A message of low priority waits for one of high priority. -/
def contended : List Call :=
  [.push (Chunk.ofBuf [2, 1, 0, 1, 42]) .expired,
    .push (Chunk.ofBuf [0, 1, 0, 1, 7]) .expired, .tryPull, .tryPull]

theorem isolates_of_run_contended :
    ∃ seen state, trace 100 (new 1) contended = .ok (seen, state) ∧
      (seen.filter (Observation.At .low)).length = 2 ∧
      ∃ own heard lane, own.Sublist contended ∧
        (∀ next ∈ own, next.At .low) ∧
        trace 100 (new 1) own = .ok (heard, lane) ∧
          heard.filter (Observation.At .low) =
            seen.filter (Observation.At .low) ∧
          SameLane .low state lane := by
  cases ran : trace 100 (new 1) contended with
  | error fault => cases ran
  | ok result =>
      have length : (trace 100 (new 1) contended).toOption.map (fun result =>
          (result.1.filter (Observation.At .low)).length) = some 2 := by
        decide +kernel
      rw [ran] at length
      exact ⟨_, _, rfl, Option.some.inj length, isolates_of_run ran .low⟩

end Pipeline
end Rx
end Thubo
