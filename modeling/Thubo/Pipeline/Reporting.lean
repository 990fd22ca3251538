import Thubo.Pipeline.Inbox

/-!
# What a pull reports

The bytes of a received batch are a sequence of messages and, when the sender
or the network has spoiled them, a rest that does not decode.  While a batch
has its turn, successive pulls return its messages.  The rest is removed with
the batch in the branch that also removes a finished batch, so the error that
is documented for it never reaches the application.

The pull of the application waits when nothing is queued; what the reader
task pushes during the wait is part of the call.
-/

namespace Thubo
namespace Rx

open Tx (Sent)

/-- Errors of the application's pull. -/
inductive RecvError where
  | decodingFailed
  | timeout
  | closed
deriving DecidableEq, Repr

/-- How a wait for new data ends. -/
inductive Wake where
  /-- The reader task has pushed batches and notified. -/
  | notified (pushes : List (Chunk × Timer))
  /-- The reader task is gone. -/
  | closed
  | expired
deriving DecidableEq, Repr

namespace Pipeline

/--
Wait for the next message and return it.  Nothing is returned while the last
of the waits goes on.
-/
def pull (fragMaxSize : Nat) :
    Pipeline → List Wake →
      Except Fault (Option (Except RecvError (Bytes × QoS)) × Pipeline)
  | state, [] => do
      let (found, state) ← state.tryPull
      return (found.map .ok, state)
  | state, wake :: wakes => do
      let (found, state) ← state.tryPull
      match found with
      | some message => return (some (.ok message), state)
      | none =>
          match wake with
          | .notified pushes => do
              let state ← run fragMaxSize state
                (pushes.map fun (chunk, timer) => .push chunk timer)
              pull fragMaxSize state wakes
          | .closed => return (some (.error .closed), state)
          | .expired => return (some (.error .timeout), state)

/-- A message that is there is returned without a wait. -/
theorem pull_found {fragMaxSize : Nat} {state after : Pipeline}
    {message : Bytes × QoS}
    (tried : state.tryPull = .ok (some message, after))
    (wakes : List Wake) :
    state.pull fragMaxSize wakes = .ok (some (.ok message), after) := by
  cases wakes <;>
    rw [pull, tried, ok_bind] <;>
    rfl

/-- No pull returns the error of undecodable bytes. -/
theorem pull_not_failed {fragMaxSize : Nat} {wakes : List Wake}
    {state after : Pipeline} :
    state.pull fragMaxSize wakes ≠
      .ok (some (.error .decodingFailed), after) := by
  intro pulled
  induction wakes generalizing state with
  | nil =>
      unfold pull at pulled
      cases tried : state.tryPull with
      | error fault =>
          rw [tried] at pulled
          cases pulled
      | ok result =>
          rcases result with ⟨found, next⟩
          rw [tried, ok_bind] at pulled
          cases found <;> cases pulled
  | cons wake wakes hypothesis =>
      cases tried : state.tryPull with
      | error fault =>
          rw [pull, tried] at pulled
          cases pulled
      | ok result =>
          rcases result with ⟨found, next⟩
          cases found with
          | some message =>
              rw [pull_found tried] at pulled
              cases pulled
          | none =>
              rw [pull, tried, ok_bind] at pulled
              cases wake with
              | closed => cases pulled
              | expired => cases pulled
              | notified pushes =>
                  dsimp only at pulled
                  cases ran : run fragMaxSize next
                      (pushes.map fun (chunk, timer) =>
                        .push chunk timer) with
                  | error fault =>
                      rw [ran] at pulled
                      cases pulled
                  | ok woken =>
                      rw [ran, ok_bind] at pulled
                      exact hypothesis pulled

end Pipeline

/-! ## What a batch owes -/

/-- The bytes after the messages that decode, at most `limit` of them. -/
def leftWithin : Nat → List UInt8 → List UInt8
  | 0, content => content
  | limit + 1, content =>
      match Parser.payload content with
      | none => content
      | some (_, rest) => leftWithin limit rest

/-- The bytes after the longest prefix that decodes. -/
def leftover (content : List UInt8) : List UInt8 :=
  leftWithin content.length content

theorem leftWithin_enough {limit : Nat} {content : List UInt8}
    (enough : content.length ≤ limit) :
    leftWithin limit content = leftover content := by
  suffices general : ∀ other, content.length ≤ other →
      leftWithin limit content = leftWithin other content from
    general _ (Nat.le_refl _)
  intro other enoughToo
  induction limit generalizing content other with
  | zero =>
      have empty := List.length_eq_zero_iff.1 (Nat.le_zero.1 enough)
      subst empty
      cases other <;> rfl
  | succ limit hypothesis =>
      cases other with
      | zero =>
          have empty := List.length_eq_zero_iff.1 (Nat.le_zero.1 enoughToo)
          subst empty
          rfl
      | succ other =>
          rw [leftWithin, leftWithin]
          cases parsed : Parser.payload content with
          | none => rfl
          | some result =>
              have shorter := Parser.length_payload parsed
              exact hypothesis (by omega) other (by omega)

theorem leftover_next {content message rest : List UInt8}
    (parsed : Parser.payload content = some (message, rest)) :
    leftover content = leftover rest := by
  have shorter := Parser.length_payload parsed
  rw [← leftWithin_enough (Nat.le_refl content.length)]
  cases content with
  | nil => cases parsed
  | cons byte content =>
      rw [List.length_cons, leftWithin, parsed]
      exact leftWithin_enough (by simpa using Nat.le_of_lt_succ shorter)

theorem leftover_stop {content : List UInt8}
    (finished : Parser.payload content = none) :
    leftover content = content := by
  rw [leftover]
  cases content with
  | nil => rfl
  | cons byte content => rw [List.length_cons, leftWithin, finished]

/-- What a pull returns, in plain bytes. -/
abbrev Reply := Except RecvError (QoS × List UInt8)

/--
The replies to which the bytes of a batch entitle the application: the
messages of the longest prefix that decodes, and the error if bytes are left.
-/
def owed (qos : QoS) (content : List UInt8) : List Reply :=
  (messagesOf content).map (fun message => .ok (qos, message)) ++
    if leftover content = [] then [] else [.error .decodingFailed]

theorem owed_next {content message rest : List UInt8}
    (parsed : Parser.payload content = some (message, rest)) (qos : QoS) :
    owed qos content = .ok (qos, message) :: owed qos rest := by
  have first : messagesOf content = message :: messagesOf rest :=
    (remaining_messagesOf content).unique
      (.next parsed (remaining_messagesOf rest))
  rw [owed, owed, first, leftover_next parsed, List.map_cons,
    List.cons_append]

theorem owed_stop {qos : QoS} {content : List UInt8}
    (finished : Parser.payload content = none) :
    owed qos content =
      if content = [] then [] else [.error .decodingFailed] := by
  have nothing : messagesOf content = [] :=
    (remaining_messagesOf content).unique (.stop finished)
  rw [owed, nothing, leftover_stop finished, List.map_nil,
    List.nil_append]

/-! ## The turn of a batch -/

namespace Pipeline

/--
The batch at the head of ring `p` is the next one that a pull decodes: no
higher ring holds a batch, and the congestion bit does not discard it.
-/
structure Turn (state : Pipeline) (p : Priority) (batch : ReadBatch) :
    Prop where
  ready : state.ready = some p
  head : (state.ring p).head? = some batch
  kept : ¬ (state.congested batch.qos.priority = true ∧
    batch.qos.congestionControl = .drop)

variable {state after : Pipeline} {p : Priority} {batch : ReadBatch}

/-- A pull returns the next message of the batch and leaves it its turn. -/
theorem Turn.tryPull (turn : state.Turn p batch)
    (sound : state.Sound) {message rest : List UInt8}
    (parsed : Parser.payload batch.rest = some (message, rest)) :
    ∃ t next after,
      state.tryPull = .ok (some (t, batch.qos), after) ∧
        t.toVec = message ∧ after.Turn p next ∧ after.Sound ∧
        next.qos = batch.qos ∧ next.rest = rest := by
  rcases ready_some turn.ready with ⟨first, more, ring⟩
  have same : first = batch := by
    have head := turn.head
    rw [ring] at head
    exact Option.some.inj head
  subst same
  have firstSound := sound.batches p first
    (by rw [ring]; exact List.mem_cons_self ..)
  have spec := ReadBatch.next_spec firstSound
  rw [parsed] at spec
  rcases spec with ⟨t, next, ran, holds, _, qos, nextSound, left⟩
  have pulled : state.tryPull = .ok (some (t, first.qos),
      (state.unsetCongested first.qos.priority).replaceHead p next) := by
    rw [Pipeline.tryPull, tryPullLoop, turn.ready]
    dsimp only
    rw [ring]
    dsimp only
    rw [if_neg turn.kept, ran]
    rfl
  have unset : (state.unsetCongested first.qos.priority).Sound :=
    ⟨sound.buffers, sound.batches⟩
  refine ⟨t, next, _, pulled, holds.1, ?_,
    replaceHead_sound unset p nextSound, qos, left⟩
  constructor
  · apply Priority.find?_ALL_eq_some.2
    constructor
    · simp [replaceHead]
    · intro q before
      have distinct : q ≠ p := by
        rintro rfl
        exact Nat.lt_irrefl _ before
      have empty := ready_above turn.ready q before
      simp [replaceHead, unsetCongested, distinct, empty]
  · simp [replaceHead]
  · rintro ⟨congested, _⟩
    rw [qos] at congested
    simp [replaceHead, unsetCongested] at congested

/-- The loop around the ring only adds to it. -/
theorem enqueue_ring (state : Pipeline) (batch : ReadBatch) (timer : Timer)
    (p : Priority) :
    state.ring p <+: (state.enqueue batch timer).2.ring p := by
  unfold enqueue
  dsimp only
  split
  · change _ <+: Priority.update _ _ _ p
    rw [Priority.update_apply]
    split
    · rename_i same
      rw [same]
      exact List.prefix_append _ _
    · exact List.prefix_rfl
  · split
    · exact List.prefix_rfl
    · exact List.prefix_rfl
    · split
      · exact List.prefix_rfl
      · split <;> exact List.prefix_rfl

theorem call_push_ring {fragMaxSize : Nat} {chunk : Chunk} {timer : Timer}
    (pushed : state.call fragMaxSize (.push chunk timer) = .ok after)
    (p : Priority) : state.ring p <+: after.ring p := by
  cases decoded : decodeBatch state.defrag (Bytes.single chunk)
      fragMaxSize with
  | error fault =>
      rw [call, push, decoded] at pushed
      cases pushed
  | ok result =>
      rcases result with ⟨outcome, defrag⟩
      rw [call, push, decoded] at pushed
      cases outcome with
      | reject error =>
          cases pushed
          exact List.prefix_rfl
      | kept =>
          cases pushed
          exact List.prefix_rfl
      | deliver batch =>
          cases pushed
          exact enqueue_ring { state with defrag := defrag } batch timer p

/-- A push leaves the head of every ring where it is. -/
theorem call_push_head {fragMaxSize : Nat} {chunk : Chunk} {timer : Timer}
    (pushed : state.call fragMaxSize (.push chunk timer) = .ok after)
    (head : (state.ring p).head? = some batch) :
    (after.ring p).head? = some batch := by
  rcases call_push_ring pushed p with ⟨new, extended⟩
  rw [← extended]
  cases ring : state.ring p with
  | nil =>
      rw [ring] at head
      cases head
  | cons first more =>
      rw [ring] at head
      exact head

/-- Calls that end ordinarily keep the state sound. -/
theorem call_keeps_sound {fragMaxSize : Nat} {next : Call}
    (sound : state.Sound) (wellFormed : next.WellFormed)
    (called : state.call fragMaxSize next = .ok after) : after.Sound := by
  have step := call_sound sound wellFormed fragMaxSize
  by_cases defined : next.KindDefined
  · rcases step.1 defined with ⟨other, ran, otherSound⟩
    rw [called] at ran
    cases ran
    exact otherSound
  · rcases step.2 defined with ⟨fault, ran⟩
    rw [called] at ran
    cases ran

theorem run_keeps_sound {fragMaxSize : Nat} {calls : List Call}
    (sound : state.Sound) (wellFormed : ∀ next ∈ calls, next.WellFormed)
    (ran : run fragMaxSize state calls = .ok after) : after.Sound := by
  induction calls generalizing state with
  | nil =>
      cases ran
      exact sound
  | cons next calls hypothesis =>
      rw [List.forall_mem_cons] at wellFormed
      cases called : state.call fragMaxSize next with
      | error fault =>
          rw [run, called] at ran
          cases ran
      | ok middle =>
          rw [run, called, ok_bind] at ran
          exact hypothesis (call_keeps_sound sound wellFormed.1 called)
            wellFormed.2 ran

/--
Successive pulls of the application while ring `p` has the turn.  Batches
pushed in between do not take the turn away.
-/
inductive Successive (fragMaxSize : Nat) (p : Priority) :
    Pipeline → List (Option (Except RecvError (Bytes × QoS))) →
      Pipeline → Prop
  | done (state : Pipeline) : Successive fragMaxSize p state [] state
  | push {state next after : Pipeline} {chunk : Chunk} {timer : Timer}
      {batch : ReadBatch} {outcomes}
      (wellFormed : (Call.push chunk timer).WellFormed)
      (pushed : state.call fragMaxSize (.push chunk timer) = .ok next)
      (turn : next.Turn p batch)
      (later : Successive fragMaxSize p next outcomes after) :
      Successive fragMaxSize p state outcomes after
  | pull {state next after : Pipeline} {wakes : List Wake} {outcome}
      {outcomes}
      (pulled : state.pull fragMaxSize wakes = .ok (outcome, next))
      (later : Successive fragMaxSize p next outcomes after) :
      Successive fragMaxSize p state (outcome :: outcomes) after

/-- An outcome in plain bytes; nothing while the pull still waits. -/
def reply (outcome : Option (Except RecvError (Bytes × QoS))) :
    Option Reply :=
  outcome.map fun result => result.map fun (t, qos) => (qos, t.toVec)

/--
The pulls of a turn return what the batch owes exactly when no undecodable
byte is left in it.
-/
theorem Successive.owed_iff {fragMaxSize : Nat} {outcomes}
    (successive : Successive fragMaxSize p state outcomes after)
    (sound : state.Sound) (turn : state.Turn p batch)
    (count : outcomes.length = (owed batch.qos batch.rest).length) :
    outcomes.map reply = (owed batch.qos batch.rest).map some ↔
      leftover batch.rest = [] := by
  induction successive generalizing batch with
  | done state =>
      have nothing := List.length_eq_zero_iff.1 count.symm
      rw [nothing]
      constructor
      · intro _
        by_contra left
        rw [owed, if_neg left] at nothing
        simp at nothing
      · intro _
        rfl
  | push wellFormed pushed later_turn later hypothesis =>
      have same := call_push_head pushed turn.head
      rw [later_turn.head] at same
      cases same
      exact hypothesis (call_keeps_sound sound wellFormed pushed)
        later_turn count
  | @pull state next after wakes outcome outcomes pulled later hypothesis =>
      cases parsed : Parser.payload batch.rest with
      | none =>
          have stop : owed batch.qos batch.rest =
              if batch.rest = [] then [] else [.error .decodingFailed] :=
            owed_stop parsed
          have left : batch.rest ≠ [] := by
            intro empty
            rw [stop, if_pos empty] at count
            cases count
          rw [stop, if_neg left, leftover_stop parsed]
          constructor
          · intro reported
            have first : reply outcome =
                some (.error .decodingFailed) :=
              List.head_eq_of_cons_eq reported
            exfalso
            rcases outcome with _ | error | found
            · cases first
            · cases first
              exact pull_not_failed pulled
            · cases first
          · intro empty
            exact absurd empty left
      | some result =>
          rcases result with ⟨message, rest⟩
          rcases turn.tryPull sound parsed with
            ⟨t, advanced, middle, tried, content, kept, keptSound, qos,
              restEq⟩
          rw [pull_found tried] at pulled
          cases pulled
          have split := owed_next parsed batch.qos
          rw [split, List.length_cons, List.length_cons] at count
          have rest_iff := hypothesis keptSound kept
            (by rw [qos, restEq]; exact Nat.succ.inj count)
          rw [qos, restEq] at rest_iff
          rw [split, leftover_next parsed, ← rest_iff, List.map_cons,
            List.map_cons]
          have first : reply (some (.ok (t, batch.qos))) =
              some (.ok (batch.qos, message)) := by
            rw [← content]
            rfl
          rw [first]
          exact List.cons_inj_right _

/--
In every run, the pulls of an accepted batch's turn return its messages and
then the error for the bytes that do not decode, as many pulls as that takes,
exactly when every byte of the batch decodes.
-/
theorem reported_of_run (fragMaxSize capacity : Nat) (calls : List Call)
    (wellFormed : ∀ next ∈ calls, next.WellFormed) (state : Pipeline)
    (ran : run fragMaxSize (new capacity) calls = .ok state)
    (p : Priority) (batch : ReadBatch) (turn : state.Turn p batch)
    (outcomes : List (Option (Except RecvError (Bytes × QoS))))
    (after : Pipeline)
    (successive : Successive fragMaxSize p state outcomes after)
    (count : outcomes.length = (owed batch.qos batch.rest).length) :
    outcomes.map reply = (owed batch.qos batch.rest).map some ↔
      leftover batch.rest = [] := by
  have sound := run_keeps_sound (sound_new capacity) wellFormed ran
  exact successive.owed_iff sound turn count

/-- The push of a frame with the message 7, followed by `tail`. -/
def framePush (tail : List UInt8) : Call :=
  .push (.ofBuf ((Sent.frame ⟨0⟩ (.new 1) [[7]]).image ++ tail)) .expired

theorem framePush_wellFormed (first second : UInt8) :
    ∀ next ∈ [framePush [first, second]], next.WellFormed := by
  intro next member
  cases List.mem_singleton.1 member
  change 0 < 7 ∧ 7 ≤ 65535
  decide

/-- Two whole messages are reported by two pulls. -/
theorem reported_of_run_two :
    ∃ state batch outcomes after,
      run 100 (new 4) [framePush [1, 8]] = .ok state ∧
        state.Turn .high batch ∧
        Successive 100 .high state outcomes after ∧
        owed batch.qos batch.rest = [.ok (⟨0⟩, [7]), .ok (⟨0⟩, [8])] ∧
        (outcomes.map reply = (owed batch.qos batch.rest).map some ↔
          leftover batch.rest = []) := by
  have pulled : ∃ state batch outcomes after,
      run 100 (new 4) [framePush [1, 8]] = .ok state ∧
        state.Turn .high batch ∧
        Successive 100 .high state outcomes after ∧
        owed batch.qos batch.rest = [.ok (⟨0⟩, [7]), .ok (⟨0⟩, [8])] ∧
        outcomes.length = 2 :=
    ⟨_, _, _, _, rfl, ⟨rfl, rfl, by decide⟩,
      @Successive.pull _ _ _ _ _ [] _ _ rfl
        (@Successive.pull _ _ _ _ _ [] _ _ rfl (.done _)), rfl, rfl⟩
  rcases pulled with
    ⟨state, batch, outcomes, after, ran, turn, successive, owes, two⟩
  refine ⟨state, batch, outcomes, after, ran, turn, successive, owes, ?_⟩
  exact reported_of_run 100 4 _ (framePush_wellFormed 1 8)
    state ran .high batch turn outcomes after successive
    (by rw [owes, two]; rfl)

/--
The second message of a frame announces five bytes and has one.  The pull
that should report it waits until the reader task is gone.
-/
theorem corrupt_rest_swallowed :
    (∀ next ∈ [framePush [5, 1]], next.WellFormed) ∧
      ∃ state batch outcomes after,
        run 100 (new 4) [framePush [5, 1]] = .ok state ∧
          state.Turn .high batch ∧
          Successive 100 .high state outcomes after ∧
          owed batch.qos batch.rest =
            [.ok (⟨0⟩, [7]), .error .decodingFailed] ∧
          outcomes.map reply =
            [some (.ok (⟨0⟩, [7])), some (.error .closed)] := by
  constructor
  · exact framePush_wellFormed 5 1
  · exact ⟨_, _, _, _, rfl, ⟨rfl, rfl, by decide⟩,
      @Successive.pull _ _ _ _ _ [] _ _ rfl
        (@Successive.pull _ _ _ _ _ [.closed] _ _ rfl (.done _)), rfl, rfl⟩

end Pipeline
end Rx
end Thubo
