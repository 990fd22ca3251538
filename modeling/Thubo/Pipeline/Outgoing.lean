import Thubo.Pipeline.Emission

/-!
# The four priorities and the puller

The stages of the four priorities together with the puller, which takes
committed batches out of the rings and fills in their length.  The puller may
take from any ring at any time: which ring it finds filled first depends on
the pushes that run meanwhile.  Taking a batch without handing it out models
the discarding of batches before transmission.
-/

namespace Thubo
namespace Tx

/-- The transmit side between the steps of pushes and pulls. -/
structure Outgoing where
  stage : Priority → Stage
  /-- How many batches of each ring have been taken. -/
  taken : Priority → Nat
  /-- The batches handed out, oldest first. -/
  out : List WriteBatch

/-- What can happen on the transmit side. -/
inductive Move where
  /-- A push takes the lock of its priority. -/
  | push (msg : Bytes) (qos : QoS)
  /-- The push that holds the lock of a priority gets a batch. -/
  | resume (p : Priority) (flush : Bool)
  /-- The push that holds the lock of a priority gets no batch. -/
  | abandon (p : Priority) (error : SendError)
  /-- The booked batch of a priority is flushed. -/
  | flush (p : Priority)
  /-- The oldest batch of a ring is handed out. -/
  | handOut (p : Priority)
  /-- The oldest batch of a ring is discarded. -/
  | discard (p : Priority)

/-- The message of a push has a length that fits a `u64`. -/
def Move.Sized : Move → Prop
  | .push msg _ => msg.len < 2 ^ 64
  | _ => True

instance (next : Move) : Decidable next.Sized := by
  unfold Move.Sized
  split <;> infer_instance

/-- The move hands out every batch it takes. -/
def Move.Keeps : Move → Prop
  | .discard _ => False
  | _ => True

instance (next : Move) : Decidable next.Keeps := by
  unfold Move.Keeps
  split <;> infer_instance

namespace Outgoing

def new (batchSize : Nat) : Outgoing :=
  ⟨fun _ => .new batchSize, fun _ => 0, []⟩

/-- A step of one priority; nothing changes when it is not possible. -/
def atStage (state : Outgoing) (p : Priority) (action : Stage.Action) :
    Except Fault Outgoing := do
  match ← (state.stage p).step action with
  | none => return state
  | some stage =>
      return { state with stage := Priority.update state.stage p stage }

/-- Take the oldest batch of a ring and do something with it. -/
def take (state : Outgoing) (p : Priority)
    (use : WriteBatch → List WriteBatch) : Outgoing :=
  match (state.stage p).committed[state.taken p]? with
  | none => state
  | some batch =>
      { state with
        taken := Priority.update state.taken p (state.taken p + 1)
        out := state.out ++ use batch }

/-- The state after one move. -/
def move (state : Outgoing) : Move → Except Fault Outgoing
  | .push msg qos => state.atStage qos.priority (.begin msg qos)
  | .resume p flush => state.atStage p (.resume flush)
  | .abandon p error => state.atStage p (.abandon error)
  | .flush p => state.atStage p .flush
  | .handOut p => .ok (state.take p fun batch => [batch.writeLen])
  | .discard p => .ok (state.take p fun _ => [])

/-- The state after a sequence of moves. -/
def run : Outgoing → List Move → Except Fault Outgoing
  | state, [] => .ok state
  | state, next :: moves => do
      let state ← state.move next
      run state moves

/-- No batch is booked or left in a ring. -/
def Drained (state : Outgoing) : Prop :=
  ∀ p, (state.stage p).booked = none ∧
    state.taken p = (state.stage p).committed.length

instance (state : Outgoing) : Decidable state.Drained := by
  unfold Drained
  infer_instance

/-- The batches of one priority among those handed out. -/
def outAt (state : Outgoing) (p : Priority) : List WriteBatch :=
  state.out.filter fun batch => batch.qos.priority = p

/-- The batches of one priority that have been taken. -/
def takenAt (state : Outgoing) (p : Priority) : List WriteBatch :=
  ((state.stage p).committed.take (state.taken p)).map WriteBatch.writeLen

/-! ## What is handed out -/

/--
Every priority is described, and the batches handed out for it are some of
those taken, in order.
-/
structure Ordered (state : Outgoing) : Prop where
  described : ∀ p, Described p (state.stage p)
  wide : ∀ p, Wide (state.stage p)
  taken_le : ∀ p, state.taken p ≤ (state.stage p).committed.length
  sublist : ∀ p, (state.outAt p).Sublist (state.takenAt p)

/-- Every batch taken has been handed out. -/
def Lossless (state : Outgoing) : Prop :=
  ∀ p, state.outAt p = state.takenAt p

theorem ordered_new {batchSize : Nat} (least : 19 ≤ batchSize)
    (most : batchSize ≤ 65535) : (new batchSize).Ordered where
  described p := described_new p batchSize
  wide _ := ⟨least, most⟩
  taken_le _ := Nat.zero_le _
  sublist _ := List.nil_sublist _

theorem lossless_new (batchSize : Nat) : (new batchSize).Lossless := by
  intro p
  rfl

/-- A longer ring holds the same first batches. -/
theorem take_extends {before after : Stage} (extends_ : before.Extends after)
    {count : Nat} (enough : count ≤ before.committed.length) :
    after.committed.take count = before.committed.take count := by
  rcases extends_.2 with ⟨more, whole⟩
  rw [← whole, List.take_append_of_le_length enough]

/-- A step of one priority hands nothing out. -/
theorem atStage_ordered {state : Outgoing} (ordered : state.Ordered)
    (p : Priority) (action : Stage.Action) (at_ : action.At p) :
    ∃ after, state.atStage p action = .ok after ∧ after.Ordered ∧
      (state.Lossless → after.Lossless) := by
  rcases step_described (ordered.described p) (ordered.wide p) at_ with
    ⟨result, run, kept⟩
  cases result with
  | none =>
      refine ⟨state, ?_, ordered, fun lossless => lossless⟩
      simp only [atStage, run, ok_bind]
      rfl
  | some stage =>
      rcases kept stage rfl with ⟨extends_, described⟩
      have same : ∀ q,
          takenAt { state with
            stage := Priority.update state.stage p stage } q =
          state.takenAt q := by
        intro q
        simp only [takenAt, Priority.update_apply]
        split
        · rename_i own
          cases own
          rw [take_extends extends_ (ordered.taken_le p)]
        · rfl
      refine ⟨{ state with stage := Priority.update state.stage p stage },
        ?_, ⟨fun q => ?_, fun q => ?_, fun q => ?_, fun q => ?_⟩,
        fun lossless q => ?_⟩
      · simp only [atStage, run, ok_bind]
        rfl
      · simp only [Priority.update_apply]
        split
        · rename_i own
          cases own
          exact described
        · exact ordered.described q
      · simp only [Priority.update_apply]
        split
        · have wide := ordered.wide p
          rwa [Wide, ← extends_.1] at wide
        · exact ordered.wide q
      · simp only [Priority.update_apply]
        split
        · rename_i own
          cases own
          exact (ordered.taken_le p).trans extends_.2.length_le
        · exact ordered.taken_le q
      · rw [same q]
        exact ordered.sublist q
      · rw [same q]
        exact lossless q

/-- Taking one more batch of a ring. -/
theorem takenAt_take {state : Outgoing} {p : Priority} {batch : WriteBatch}
    (next : (state.stage p).committed[state.taken p]? = some batch)
    (out : List WriteBatch) (q : Priority) :
    takenAt { state with
        taken := Priority.update state.taken p (state.taken p + 1)
        out := out } q =
      state.takenAt q ++ if q = p then [batch.writeLen] else [] := by
  simp only [takenAt, Priority.update_apply]
  split
  · rename_i own
    cases own
    rw [List.take_add_one, next]
    simp
  · simp

theorem taken_lt {state : Outgoing} {p : Priority} {batch : WriteBatch}
    (next : (state.stage p).committed[state.taken p]? = some batch) :
    state.taken p < (state.stage p).committed.length :=
  (List.getElem?_eq_some_iff.1 next).1

/-- Taking a batch hands out the batch or nothing. -/
theorem take_ordered {state : Outgoing} (ordered : state.Ordered)
    (p : Priority) :
    (state.take p fun batch => [batch.writeLen]).Ordered ∧
      (state.Lossless →
        (state.take p fun batch => [batch.writeLen]).Lossless) ∧
      (state.take p fun _ => []).Ordered := by
  unfold take
  cases next : (state.stage p).committed[state.taken p]? with
  | none => exact ⟨ordered, fun lossless => lossless, ordered⟩
  | some batch =>
      rcases ordered.described p with
        ⟨sent, counters, messages, unfinished, describes⟩
      have own := describes.priority_eq (List.mem_of_getElem? next)
      have priority : batch.writeLen.qos.priority = p := own
      have taken_le : ∀ q,
          Priority.update state.taken p (state.taken p + 1) q ≤
            (state.stage q).committed.length := by
        intro q
        rw [Priority.update_apply]
        split
        · rename_i own
          cases own
          exact taken_lt next
        · exact ordered.taken_le q
      have handed : ∀ q, outAt { state with
          taken := Priority.update state.taken p (state.taken p + 1)
          out := state.out ++ [batch.writeLen] } q =
            state.outAt q ++ if q = p then [batch.writeLen] else [] := by
        intro q
        simp only [outAt, List.filter_append]
        by_cases own : q = p
        · simp [own, priority]
        · simp [priority, own, Ne.symm own]
      refine ⟨⟨ordered.described, ordered.wide, taken_le, fun q => ?_⟩,
        fun lossless q => ?_,
        ⟨ordered.described, ordered.wide, taken_le, fun q => ?_⟩⟩
      · rw [takenAt_take next, handed q]
        exact (ordered.sublist q).append (List.Sublist.refl _)
      · rw [takenAt_take next, handed q, lossless q]
      · rw [takenAt_take next]
        simp only [outAt, List.append_nil]
        exact (ordered.sublist q).trans (List.sublist_append_left _ _)

/-- A move succeeds, keeps the order and loses only what it discards. -/
theorem move_ordered {state : Outgoing} (ordered : state.Ordered)
    {next : Move} (sized : next.Sized) :
    ∃ after, state.move next = .ok after ∧ after.Ordered ∧
      (next.Keeps → state.Lossless → after.Lossless) := by
  cases next with
  | push msg qos =>
      rcases atStage_ordered ordered qos.priority (.begin msg qos)
          ⟨rfl, sized⟩ with
        ⟨after, run, kept, lossless⟩
      exact ⟨after, run, kept, fun _ => lossless⟩
  | resume p flush =>
      rcases atStage_ordered ordered p (.resume flush) trivial with
        ⟨after, run, kept, lossless⟩
      exact ⟨after, run, kept, fun _ => lossless⟩
  | abandon p error =>
      rcases atStage_ordered ordered p (.abandon error) trivial with
        ⟨after, run, kept, lossless⟩
      exact ⟨after, run, kept, fun _ => lossless⟩
  | flush p =>
      rcases atStage_ordered ordered p .flush trivial with
        ⟨after, run, kept, lossless⟩
      exact ⟨after, run, kept, fun _ => lossless⟩
  | handOut p =>
      rcases take_ordered ordered p with ⟨kept, lossless, _⟩
      exact ⟨_, rfl, kept, fun _ => lossless⟩
  | discard p =>
      exact ⟨_, rfl, (take_ordered ordered p).2.2,
        fun impossible => impossible.elim⟩

/-- Every sequence of moves succeeds and keeps the order. -/
theorem run_ordered {state : Outgoing} (ordered : state.Ordered)
    {moves : List Move} (sized : ∀ next ∈ moves, next.Sized) :
    ∃ after, run state moves = .ok after ∧ after.Ordered ∧
      ((∀ next ∈ moves, next.Keeps) → state.Lossless →
        after.Lossless) := by
  induction moves generalizing state with
  | nil => exact ⟨state, rfl, ordered, fun _ lossless => lossless⟩
  | cons next moves hypothesis =>
      rw [List.forall_mem_cons] at sized
      rcases move_ordered ordered sized.1 with
        ⟨middle, first, middleOrdered, firstLossless⟩
      rcases hypothesis middleOrdered sized.2 with
        ⟨after, rest, afterOrdered, restLossless⟩
      refine ⟨after, ?_, afterOrdered, ?_⟩
      · rw [run, first, ok_bind, rest]
      · intro keeps lossless
        rw [List.forall_mem_cons] at keeps
        exact restLossless keeps.2 (firstLossless keeps.1 lossless)

end Outgoing
end Tx
end Thubo
