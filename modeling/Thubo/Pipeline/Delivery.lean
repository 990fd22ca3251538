import Mathlib.Data.List.Forall2
import Thubo.Pipeline.Streams

/-!
# What a sequence of calls returns

Every queued batch holds a list of messages that are still to be decoded.
A call of `try_pull` returns the first message that some priority still
holds, and a push appends the messages of its batch, so the messages returned
and the messages queued together are those that arrived.  Batches discarded
under the congestion bit and batches that find their ring full are missing.
-/

namespace Thubo
namespace Rx

/-- The messages that decode one after another from the bytes of a batch. -/
inductive Remaining : List UInt8 → List (List UInt8) → Prop
  | stop {rest : List UInt8} (finished : Parser.payload rest = none) :
      Remaining rest []
  | next {rest after message : List UInt8} {messages : List (List UInt8)}
      (parsed : Parser.payload rest = some (message, after))
      (later : Remaining after messages) :
      Remaining rest (message :: messages)

/-- Decoding one message after another comes to an end. -/
theorem remaining_exists (rest : List UInt8) :
    ∃ messages, Remaining rest messages := by
  cases parsed : Parser.payload rest with
  | none => exact ⟨[], .stop parsed⟩
  | some result =>
      have shorter := Parser.length_payload parsed
      rcases remaining_exists result.2 with ⟨messages, later⟩
      exact ⟨result.1 :: messages, .next parsed later⟩
termination_by rest.length

/-- A queued batch of a priority with the messages it still holds. -/
structure HoldsMessages (p : Priority) (batch : ReadBatch)
    (messages : List (List UInt8)) : Prop where
  priority_eq : batch.qos.priority = p
  sound : batch.Sound
  remaining : Remaining batch.rest messages

/-- The next message of a batch is the first one it holds. -/
theorem HoldsMessages.next_eq {p : Priority} {batch : ReadBatch}
    {messages : List (List UInt8)}
    (holds : HoldsMessages p batch messages) :
    match messages with
    | [] => batch.next = .ok none
    | message :: later =>
        ∃ t after, batch.next = .ok (some (t, batch.qos, after)) ∧
          t.toVec = message ∧ HoldsMessages p after later := by
  have spec := ReadBatch.next_spec holds.sound
  cases holds.remaining with
  | stop finished =>
      rw [finished] at spec
      exact spec
  | next parsed later =>
      rw [parsed] at spec
      rcases spec with ⟨t, after, run, content, _, sameQos, sound, restEq⟩
      refine ⟨t, after, run, content.1, ?_, sound, ?_⟩
      · rw [sameQos, holds.priority_eq]
      · rwa [restEq]

/-- The messages of one priority among those returned. -/
def returned (p : Priority) (got : List (Bytes × QoS)) :
    List (List UInt8) :=
  (got.filter fun (_, qos) => qos.priority = p).map fun (t, _) => t.toVec

@[simp]
theorem returned_nil (p : Priority) : returned p [] = [] :=
  rfl

theorem returned_append (p : Priority) (left right : List (Bytes × QoS)) :
    returned p (left ++ right) = returned p left ++ returned p right := by
  simp [returned]

theorem returned_singleton (p : Priority) (t : Bytes) (qos : QoS) :
    returned p [(t, qos)] = if qos.priority = p then [t.toVec] else [] := by
  by_cases same : qos.priority = p
  · simp [returned, same]
  · simp [returned, same]

namespace Pipeline

/-- The messages that the batches of every ring still hold. -/
def Pending (state : Pipeline)
    (pending : Priority → List (List (List UInt8))) : Prop :=
  ∀ p, List.Forall₂ (HoldsMessages p) (state.ring p) (pending p)

variable {state : Pipeline}
variable {pending : Priority → List (List (List UInt8))}

theorem pending_new (capacity : Nat) :
    (new capacity).Pending fun _ => [] := by
  intro p
  exact .nil

/-- The oldest batch of a ring and the messages it holds. -/
theorem Pending.head (holds : state.Pending pending) {p : Priority}
    {batch : ReadBatch} {more : List ReadBatch}
    (ring : state.ring p = batch :: more) :
    ∃ messages later, pending p = messages :: later ∧
      HoldsMessages p batch messages ∧
      List.Forall₂ (HoldsMessages p) more later := by
  have related := holds p
  rw [ring] at related
  cases split : pending p with
  | nil =>
      rw [split] at related
      cases related
  | cons messages later =>
      rw [split] at related
      cases related with
      | cons first rest => exact ⟨messages, later, rfl, first, rest⟩

/-- Replacing what is left of one ring. -/
theorem Pending.update (holds : state.Pending pending) (p : Priority)
    {batches : List ReadBatch} {messages : List (List (List UInt8))}
    (related : List.Forall₂ (HoldsMessages p) batches messages)
    {after : Pipeline}
    (ring : after.ring = Priority.update state.ring p batches) :
    after.Pending (Priority.update pending p messages) := by
  intro q
  rw [ring, Priority.update_apply, Priority.update_apply]
  split
  · rename_i same
    rw [same]
    exact related
  · exact holds q

/-- No congestion bit is set. -/
def Uncongested (state : Pipeline) : Prop :=
  ∀ p, state.congested p = false

theorem Uncongested.unset (free : state.Uncongested) (p : Priority) :
    (state.unsetCongested p).Uncongested := by
  intro q
  simp only [unsetCongested, Priority.update_apply]
  split
  · rfl
  · exact free q

/--
A pull takes `lost` and then the returned message off what is queued.  Only
the congestion bits make it lose anything.
-/
structure Pulls (state : Pipeline)
    (pending : Priority → List (List (List UInt8)))
    (result : Option (Bytes × QoS)) (after : Pipeline)
    (left : Priority → List (List (List UInt8)))
    (lost : Priority → List (List UInt8)) : Prop where
  defrag_eq : after.defrag = state.defrag
  holds : after.Pending left
  split : ∀ p, (pending p).flatten =
    lost p ++ (returned p result.toList ++ (left p).flatten)
  free : state.Uncongested → after.Uncongested ∧ ∀ p, lost p = []
  drained : result = none → ∀ p, (left p).flatten = []

/-- Nothing is queued when no ring is ready. -/
theorem pulls_nothing (holds : state.Pending pending)
    (idle : state.ready = none) :
    Pulls state pending none state pending fun _ => [] := by
  refine ⟨rfl, holds, fun p => ?_, fun free => ⟨free, fun _ => rfl⟩,
    fun _ p => ?_⟩
  · rfl
  · have related := holds p
    rw [ready_none idle p] at related
    cases split : pending p with
    | nil => rfl
    | cons messages later =>
        rw [split] at related
        cases related

/-- A round removes the oldest batch of a ring and goes on. -/
theorem Pulls.of_remove {p : Priority} {messages : List (List UInt8)}
    {later : List (List (List UInt8))} (queued : pending p = messages :: later)
    {result : Option (Bytes × QoS)} {after : Pipeline}
    {left : Priority → List (List (List UInt8))}
    {lost : Priority → List (List UInt8)} {q : Priority}
    (pulls : Pulls ((state.unsetCongested q).removeHead p)
      (Priority.update pending p later) result after left lost)
    (innocent : state.Uncongested → messages = []) :
    Pulls state pending result after left
      (Priority.update lost p (messages ++ lost p)) := by
  refine ⟨pulls.defrag_eq, pulls.holds, ?_, ?_, pulls.drained⟩
  · intro r
    have rest := pulls.split r
    rw [Priority.update_apply] at rest ⊢
    by_cases same : r = p
    · cases same
      rw [if_pos rfl] at rest ⊢
      rw [queued, List.flatten_cons, rest, List.append_assoc]
    · rwa [if_neg same] at rest ⊢
  · intro free
    rcases pulls.free (free.unset q) with ⟨stays, nothing⟩
    refine ⟨stays, fun r => ?_⟩
    rw [Priority.update_apply]
    split
    · rw [innocent free, nothing p]
      rfl
    · exact nothing r

/-- The loop of `try_pull` returns the first message left of a priority. -/
theorem tryPullLoop_pulls (rounds : Nat) (holds : state.Pending pending)
    (enough : state.size < rounds) :
    ∃ result after left lost,
      tryPullLoop rounds state = .ok (result, after) ∧
        Pulls state pending result after left lost := by
  induction rounds generalizing state pending with
  | zero => exact absurd enough (Nat.not_lt_zero _)
  | succ rounds hypothesis =>
      unfold tryPullLoop
      cases found : state.ready with
      | none => exact ⟨_, _, _, _, rfl, pulls_nothing holds found⟩
      | some p =>
          rcases ready_some found with ⟨batch, more, ring⟩
          rcases holds.head ring with ⟨messages, later, queued, first, rest⟩
          have shorter : ((state.unsetCongested batch.qos.priority).removeHead
              p).size < rounds := by
            have length := size_removeHead ring
            change (state.removeHead p).size < rounds
            omega
          have removed : ((state.unsetCongested
              batch.qos.priority).removeHead p).Pending
                (Priority.update pending p later) :=
            holds.update p rest (by rw [removeHead, unsetCongested, ring]; rfl)
          rcases hypothesis removed shorter with
            ⟨result, after, left, lost, run, pulls⟩
          dsimp only
          rw [ring]
          dsimp only
          split
          · rename_i congested
            refine ⟨_, _, _, _, run, pulls.of_remove queued ?_⟩
            intro free
            rw [free] at congested
            exact absurd congested.1 Bool.false_ne_true
          · have next := first.next_eq
            cases messages with
            | nil =>
                rw [next, ok_bind]
                exact ⟨_, _, _, _, run, pulls.of_remove queued fun _ => rfl⟩
            | cons message messages =>
                rcases next with ⟨t, advanced, ran, content, holdsMore⟩
                rw [ran, ok_bind]
                refine ⟨_, _, Priority.update pending p (messages :: later),
                  fun _ => [], rfl, rfl, ?_, ?_, ?_, ?_⟩
                · exact holds.update p (.cons holdsMore rest)
                    (by rw [replaceHead, unsetCongested, ring]; rfl)
                · intro q
                  simp only [Option.toList_some, returned_singleton,
                    first.priority_eq, Priority.update_apply]
                  by_cases same : q = p
                  · cases same
                    simp [queued, content]
                  · rw [if_neg (Ne.symm same), if_neg same]
                    rfl
                · intro free
                  exact ⟨free.unset _, fun _ => rfl⟩
                · intro impossible
                  cases impossible

theorem tryPull_pulls (holds : state.Pending pending) :
    ∃ result after left lost, state.tryPull = .ok (result, after) ∧
      Pulls state pending result after left lost :=
  tryPullLoop_pulls _ holds (Nat.lt_succ_self _)

/-! ## What a push adds -/

end Pipeline

/-- The messages that a decoded batch of a priority brings to its ring. -/
def Decoded.Brings (p : Priority) (messages : List (List UInt8)) :
    Decoded → Prop
  | .deliver batch => HoldsMessages p batch messages
  | _ => messages = []

namespace Pipeline

/-- The ring that a push is going to use is not full. -/
def HasRoom (fragMaxSize : Nat) (state : Pipeline) (bytes : Bytes) : Prop :=
  match decodeBatch state.defrag bytes fragMaxSize with
  | .ok (.deliver batch, _) =>
      (state.ring batch.qos.priority).length < state.capacity
  | _ => True

instance (fragMaxSize : Nat) (state : Pipeline) (bytes : Bytes) :
    Decidable (state.HasRoom fragMaxSize bytes) := by
  unfold HasRoom
  split <;> infer_instance

/-- A push adds at most the messages its batch brings. -/
structure Pushes (state : Pipeline)
    (pending : Priority → List (List (List UInt8))) (p : Priority)
    (messages : List (List UInt8)) (defrag : Defragmentation)
    (after : Pipeline) (left : Priority → List (List (List UInt8))) :
    Prop where
  defrag_eq : after.defrag = defrag
  holds : after.Pending left
  sublist : ∀ q, (left q).flatten.Sublist
    ((pending q).flatten ++ if q = p then messages else [])

/-- A push with room for its batch adds all the messages it brings. -/
structure PushesAll (state : Pipeline)
    (pending : Priority → List (List (List UInt8))) (p : Priority)
    (messages : List (List UInt8))
    (after : Pipeline) (left : Priority → List (List (List UInt8))) :
    Prop where
  free : state.Uncongested → after.Uncongested
  exactly : ∀ q, (left q).flatten =
    (pending q).flatten ++ if q = p then messages else []

/-- The batch goes to the end of its ring, or it is lost. -/
theorem enqueue_pushes (holds : state.Pending pending) {batch : ReadBatch}
    {p : Priority} {messages : List (List UInt8)}
    (brings : HoldsMessages p batch messages) (timer : Timer) :
    ∃ left, Pushes state pending p messages state.defrag
        (state.enqueue batch timer).2 left ∧
      ((state.ring p).length < state.capacity →
        PushesAll state pending p messages (state.enqueue batch timer).2
          left) := by
  have samePriority := brings.priority_eq
  cases samePriority
  have dropped : ∀ q, (pending q).flatten.Sublist
      ((pending q).flatten ++
        if q = batch.qos.priority then messages else []) :=
    fun q => List.sublist_append_left _ _
  by_cases room :
      (state.ring batch.qos.priority).length < state.capacity
  · have exactly : ∀ q,
        (Priority.update pending batch.qos.priority
          (pending batch.qos.priority ++ [messages]) q).flatten =
        (pending q).flatten ++
          if q = batch.qos.priority then messages else [] := by
      intro q
      rw [Priority.update_apply]
      split
      · rename_i same
        cases same
        simp
      · simp
    have added : (state.enqueue batch timer).2 =
        { state with
          ring := Priority.update state.ring batch.qos.priority
            (state.ring batch.qos.priority ++ [batch]) } := by
      simp only [enqueue, if_pos room]
    rw [added]
    refine ⟨_, ⟨rfl, ?_, fun q => ?_⟩, fun _ => ⟨fun free => free, exactly⟩⟩
    · exact holds.update batch.qos.priority
        (List.rel_append (holds batch.qos.priority) (.cons brings .nil)) rfl
    · rw [exactly q]
  · refine ⟨pending, ?_, fun impossible => absurd impossible room⟩
    unfold enqueue
    simp only [if_neg room]
    split
    · exact ⟨rfl, holds, dropped⟩
    · exact ⟨rfl, holds, dropped⟩
    · split
      · exact ⟨rfl, holds, dropped⟩
      · split
        · exact ⟨rfl, holds, dropped⟩
        · exact ⟨rfl, holds, dropped⟩

/-- A push goes on with what decoding its batch brings. -/
theorem push_pushes (holds : state.Pending pending) {bytes : Bytes}
    {fragMaxSize : Nat} {decoded : Decoded} {defrag : Defragmentation}
    (run : decodeBatch state.defrag bytes fragMaxSize =
      .ok (decoded, defrag))
    {p : Priority} {messages : List (List UInt8)}
    (brings : decoded.Brings p messages) (timer : Timer) :
    ∃ result after left,
      state.push bytes fragMaxSize timer = .ok (result, after) ∧
        Pushes state pending p messages defrag after left ∧
        (state.HasRoom fragMaxSize bytes →
          PushesAll state pending p messages after left) := by
  have stored : Pending { state with defrag := defrag } pending := holds
  have nothing : ∀ q : Priority, (pending q).flatten =
      (pending q).flatten ++
        if q = p then ([] : List (List UInt8)) else [] := by
    intro q
    rw [ite_self, List.append_nil]
  unfold push HasRoom
  rw [run, ok_bind]
  cases decoded with
  | reject error =>
      cases brings
      exact ⟨_, _, pending, rfl,
        ⟨rfl, stored, fun q => List.sublist_append_left _ _⟩,
        fun _ => ⟨fun free => free, nothing⟩⟩
  | kept =>
      cases brings
      exact ⟨_, _, pending, rfl,
        ⟨rfl, stored, fun q => List.sublist_append_left _ _⟩,
        fun _ => ⟨fun free => free, nothing⟩⟩
  | deliver batch =>
      rcases enqueue_pushes stored brings timer with
        ⟨left, pushes, all⟩
      have samePriority := brings.priority_eq
      cases samePriority
      refine ⟨_, _, left, rfl, ⟨pushes.defrag_eq, pushes.holds,
        pushes.sublist⟩, fun room => ?_⟩
      have complete := all room
      exact ⟨complete.free, complete.exactly⟩

/-! ## Calls with their results -/

/-- One call, with the message it returns. -/
def answer (fragMaxSize : Nat) (state : Pipeline) :
    Call → Except Fault (Option (Bytes × QoS) × Pipeline)
  | .push chunk timer => do
      let (_, state) ← state.push (Bytes.single chunk) fragMaxSize timer
      return (none, state)
  | .tryPull => state.tryPull

/-- A sequence of calls, with the messages they return. -/
def serve (fragMaxSize : Nat) :
    Pipeline → List Call → Except Fault (List (Bytes × QoS) × Pipeline)
  | state, [] => .ok ([], state)
  | state, next :: calls => do
      let (got, state) ← state.answer fragMaxSize next
      let (more, state) ← serve fragMaxSize state calls
      return (got.toList ++ more, state)

/-- The last call of a sequence. -/
theorem serve_concat {fragMaxSize : Nat} {calls : List Call} {next : Call}
    {start middle after : Pipeline} {got : List (Bytes × QoS)}
    {result : Option (Bytes × QoS)}
    (served : serve fragMaxSize start calls = .ok (got, middle))
    (answered : middle.answer fragMaxSize next = .ok (result, after)) :
    serve fragMaxSize start (calls ++ [next]) =
      .ok (got ++ result.toList, after) := by
  induction calls generalizing start got with
  | nil =>
      cases served
      rw [List.nil_append, serve, answered]
      simp [serve, ok_bind]
  | cons first calls hypothesis =>
      rw [serve] at served
      rw [List.cons_append, serve]
      cases ran : start.answer fragMaxSize first with
      | error fault =>
          rw [ran] at served
          cases served
      | ok outcome =>
          rcases outcome with ⟨found, next⟩
          rw [ran, ok_bind] at served
          cases later : serve fragMaxSize next calls with
          | error fault =>
              simp only [later, error_bind] at served
              cases served
          | ok rest =>
              rcases rest with ⟨more, last⟩
              simp only [later, ok_bind] at served
              cases served
              simp only [ok_bind, hypothesis later, List.append_assoc]
              rfl

/-- A push finds room in its ring. -/
def FindsRoom (fragMaxSize : Nat) (state : Pipeline) : Call → Prop
  | .push chunk _ => state.HasRoom fragMaxSize (Bytes.single chunk)
  | .tryPull => True

instance (fragMaxSize : Nat) (state : Pipeline) (next : Call) :
    Decidable (state.FindsRoom fragMaxSize next) := by
  unfold FindsRoom
  split <;> infer_instance

/-- Every push of a sequence of calls finds room in its ring. -/
def NeverFull (fragMaxSize : Nat) : Pipeline → List Call → Prop
  | _, [] => True
  | state, next :: calls =>
      state.FindsRoom fragMaxSize next ∧
      match state.answer fragMaxSize next with
      | .ok (_, after) => NeverFull fragMaxSize after calls
      | .error _ => True

instance decidableNeverFull (fragMaxSize : Nat) :
    (state : Pipeline) → (calls : List Call) →
      Decidable (NeverFull fragMaxSize state calls)
  | _, [] => .isTrue trivial
  | state, next :: calls =>
      match answered : state.answer fragMaxSize next with
      | .ok (_, after) =>
          have := decidableNeverFull fragMaxSize after calls
          decidable_of_iff
            (state.FindsRoom fragMaxSize next ∧
              NeverFull fragMaxSize after calls)
            (by rw [NeverFull, answered])
      | .error _ =>
          decidable_of_iff (state.FindsRoom fragMaxSize next)
            (by rw [NeverFull, answered]; simp)

/-- The batches that a sequence of calls pushes. -/
def pushed (calls : List Call) : List (List UInt8) :=
  calls.filterMap fun next =>
    match next with
    | .push chunk _ => some chunk.asSlice
    | .tryPull => none

end Pipeline
end Rx
end Thubo
