import Thubo.Pipeline.Moves
import Thubo.Pipeline.RoundTrip
import Thubo.Pipeline.Scheduling

/-!
# The concurrent pipeline as four sequential stages

The pushes, the puller and the tasks that disable the pipeline take turns at
every atomic access.  Seen from the batches, nothing of this shows: every run
has a run of the sequential transmit side that ends with the same stages and
the same batches handed out.  What has been proved of the sequential side, up
to the messages that a receiver returns, holds of every interleaving.
-/

namespace Thubo
namespace Tx

variable {p : Priority} {queue later : Queue} {act : Queue.Action}

/-! ## One queue -/

/-- A step of the stage as a move of the transmit side. -/
def Stage.Action.move (p : Priority) : Stage.Action → Move
  | .begin msg qos => .push msg qos
  | .resume due => .resume p due
  | .abandon error => .abandon p error
  | .flush => .flush p

/-- A batch that leaves a queue as a move of the transmit side. -/
def Fate.move (p : Priority) : Fate → Move
  | .handedOut => .handOut p
  | .discarded => .discard p

/-- What a step of a queue is for the sequential transmit side. -/
inductive Queue.Linear (p : Priority) (queue later : Queue) : Prop where
  /-- Nothing that the sequential side knows of. -/
  | silent (stage : later.stage = queue.stage)
      (left : later.left = queue.left)
  /-- A step of the stage. -/
  | stages (act : Stage.Action) (at_ : act.At p)
      (moved : queue.stage.step act = .ok (some later.stage))
      (left : later.left = queue.left)
  /-- The oldest batch that has not left yet leaves. -/
  | departs (slot : Slot) (fate : Fate)
      (stage : later.stage = queue.stage)
      (oldest : queue.stage.committed[queue.left.length]? =
        some slot.batch)
      (left : later.left = queue.left ++ [⟨slot, fate⟩])

/-- The batch in the hand of the puller is the next one to leave. -/
theorem Filed.oldest (filed : Filed queue) {slot : Slot} {rest : List Slot}
    (next : queue.pool.hand.toList ++ queue.pool.ring = slot :: rest) :
    queue.stage.committed[queue.left.length]? = some slot.batch := by
  have committed : queue.stage.committed = queue.departing := filed
  rw [committed, Queue.departing, List.append_assoc, ← List.map_append,
    next, List.getElem?_append_right (by simp)]
  simp

/-- Every step of a sound queue is at most one step of the sequential side. -/
theorem Sound.linear (sound : Sound p queue)
    (stepped : queue.step act = some later) : queue.Linear p later := by
  have moved := sound.stepped stepped
  have stages := moved.stage sound.called
  cases moved with
  | decide congested slot pool inspected kept =>
      have next : queue.pool.hand.toList ++ queue.pool.ring =
          slot :: queue.pool.ring := by
        rw [inspected]
        rfl
      exact .departs slot _ rfl (sound.filed.oldest next) rfl
  | collect slot taken pool took inspected kept =>
      rcases Pool.take_eq took with ⟨first, ring, free, same⟩
      rw [same] at inspected
      cases inspected
      have next : queue.pool.hand.toList ++ queue.pool.ring =
          slot :: taken.ring := by
        rw [free, ring]
        rfl
      exact .departs slot _ rfl (sound.filed.oldest next) rfl
  | quiet call backoff closed here there after holding goes inner =>
      rw [inner]
      exact .silent rfl rfl
  | _ =>
      rcases stages with same | ⟨act, at_, stepped⟩
      · exact .silent same rfl
      · exact .stages act at_ stepped rfl

/-! ## Runs of the sequential side -/

namespace Outgoing

/-- The transmit side gets from one state to another. -/
def Reaches (serial after : Outgoing) : Prop :=
  ∃ moves : List Move, (∀ next ∈ moves, next.Sized) ∧
    serial.run moves = .ok after

theorem run_append {serial middle : Outgoing} {front : List Move}
    (ran : serial.run front = .ok middle) (back : List Move) :
    serial.run (front ++ back) = middle.run back := by
  induction front generalizing serial with
  | nil =>
      cases ran
      rfl
  | cons next front hypothesis =>
      rw [run] at ran
      rw [List.cons_append, run]
      cases moved : serial.move next with
      | error fault =>
          rw [moved] at ran
          cases ran
      | ok after =>
          rw [moved] at ran
          exact hypothesis ran

theorem reaches_self (serial : Outgoing) : serial.Reaches serial :=
  ⟨[], by simp, rfl⟩

theorem Reaches.trans {first middle last : Outgoing}
    (front : first.Reaches middle) (back : middle.Reaches last) :
    first.Reaches last := by
  rcases front with ⟨moves, sized, ran⟩
  rcases back with ⟨more, moreSized, rest⟩
  refine ⟨moves ++ more, ?_, (run_append ran more).trans rest⟩
  intro next member
  rcases List.mem_append.1 member with earlier | here
  · exact sized next earlier
  · exact moreSized next here

theorem reaches_move {serial after : Outgoing} {next : Move}
    (sized : next.Sized) (moved : serial.move next = .ok after) :
    serial.Reaches after := by
  refine ⟨[next], by simpa using sized, ?_⟩
  rw [run, moved]
  rfl

/-- A step of one stage. -/
theorem reaches_stage {serial : Outgoing} {act : Stage.Action}
    {stage : Stage} (at_ : act.At p)
    (stepped : (serial.stage p).step act = .ok (some stage)) :
    serial.Reaches
      { serial with stage := Priority.update serial.stage p stage } := by
  have at_stage : serial.atStage p act = .ok
      { serial with stage := Priority.update serial.stage p stage } := by
    rw [atStage, stepped]
    rfl
  have sized : (act.move p).Sized := by
    cases act with
    | begin msg qos => exact at_.2
    | _ => trivial
  refine reaches_move sized ?_
  cases act with
  | begin msg qos =>
      cases at_.1
      exact at_stage
  | _ => exact at_stage

/-- The batches that leave the transmit side with a fate. -/
def leaving (fate : Fate) (batch : WriteBatch) : List WriteBatch :=
  match fate with
  | .handedOut => [batch.writeLen]
  | .discarded => []

/-- The oldest batch of a ring leaves. -/
theorem reaches_departed {serial : Outgoing} {batch : WriteBatch}
    (oldest : (serial.stage p).committed[serial.taken p]? = some batch)
    (fate : Fate) :
    serial.Reaches
      { serial with
        taken := Priority.update serial.taken p (serial.taken p + 1)
        out := serial.out ++ leaving fate batch } := by
  have sized : (fate.move p).Sized := by
    cases fate <;> trivial
  refine reaches_move sized ?_
  cases fate <;> simp only [Fate.move, move, take, oldest, leaving]

end Outgoing

/-! ## The simulation -/

namespace Pipeline

variable {pipeline after : Pipeline} {serial : Outgoing}

/-- The sequential side has the stages and the departures of the pipeline. -/
structure Linearizes (pipeline : Pipeline) (serial : Outgoing) : Prop where
  stage : ∀ p, serial.stage p = (pipeline.queues p).stage
  taken : ∀ p, serial.taken p = (pipeline.queues p).left.length
  out : ∀ p, serial.outAt p = (pipeline.queues p).out

theorem linearizes_new (capacity batchSize : Nat) :
    Linearizes (new capacity batchSize) (.new batchSize) :=
  ⟨fun _ => rfl, fun _ => rfl, fun _ => rfl⟩

/-- The queue of one priority takes a step, and the others stay. -/
theorem Did.single {action : Action}
    (did : Did pipeline action after) :
    after.queues = pipeline.queues ∨
      ∃ p act queue, (pipeline.queues p).step act = some queue ∧
        after.queues = Priority.update pipeline.queues p queue := by
  cases did with
  | call msg qos queue bounded stepped =>
      exact Or.inr ⟨_, _, queue, stepped, rfl⟩
  | push p call queue stepped =>
      exact Or.inr ⟨_, _, queue, stepped, rfl⟩
  | expire p call queue stepped =>
      exact Or.inr ⟨_, _, queue, stepped, rfl⟩
  | cancel p call queue stepped =>
      exact Or.inr ⟨_, _, queue, stepped, rfl⟩
  | puller aged after pulls =>
      cases pulls with
      | goes p act point queue goes stepped =>
          exact Or.inr ⟨_, _, queue, stepped, rfl⟩
      | handOut p congested slot queue point hand fate stepped =>
          exact Or.inr ⟨_, _, queue, stepped, rfl⟩
      | drainUnlock p queue point stepped =>
          exact Or.inr ⟨_, _, queue, stepped, rfl⟩
      | _ => exact Or.inl rfl
  | task task p act point queue disables stepped =>
      exact Or.inr ⟨_, _, queue, stepped, rfl⟩
  | _ => exact Or.inl rfl

/-- The batches that a queue hands out after one more has left. -/
theorem out_departed {queue later : Queue} {slot : Slot} {fate : Fate}
    (left : later.left = queue.left ++ [⟨slot, fate⟩]) :
    later.out = queue.out ++ Outgoing.leaving fate slot.batch := by
  cases fate <;>
    simp [Queue.out, left, Outgoing.leaving, List.filter_append]

/-- What the sequential side hands out of one priority. -/
theorem outAt_leaving (serial : Outgoing) {batch : WriteBatch}
    (own : batch.qos.priority = p) (fate : Fate) (q : Priority)
    (taken : Priority → Nat) :
    Outgoing.outAt
        { serial with
          taken := taken
          out := serial.out ++ Outgoing.leaving fate batch } q =
      serial.outAt q ++
        if q = p then Outgoing.leaving fate batch else [] := by
  have same : batch.writeLen.qos.priority = p := own
  cases fate with
  | discarded => simp [Outgoing.outAt, Outgoing.leaving]
  | handedOut =>
      simp only [Outgoing.outAt, Outgoing.leaving, List.filter_append]
      by_cases here : q = p
      · simp [here, same]
      · simp [here, same, Ne.symm here]

/-- The sequential side follows a step of one queue. -/
theorem Linearizes.step (linearizes : Linearizes pipeline serial)
    (sound : ∀ p, Sound p (pipeline.queues p)) {p : Priority}
    {queue : Queue} {act : Queue.Action}
    (stepped : (pipeline.queues p).step act = some queue)
    (queues : after.queues = Priority.update pipeline.queues p queue) :
    ∃ next, serial.Reaches next ∧ Linearizes after next := by
  -- what holds of the queue that moves and held of the others
  have updated : ∀ (motive : Priority → Queue → Prop), motive p queue →
      (∀ q, q ≠ p → motive q (pipeline.queues q)) →
        ∀ q, motive q (after.queues q) := by
    intro motive here others q
    rw [queues, Priority.update_apply]
    split
    · rename_i same
      rwa [same]
    · rename_i other
      exact others q other
  cases (sound p).linear stepped with
  | silent stage left =>
      refine ⟨serial, serial.reaches_self, ?_, ?_, ?_⟩
      · refine updated (fun q queue => serial.stage q = queue.stage) ?_
          fun q _ => linearizes.stage q
        rw [stage, linearizes.stage]
      · refine updated (fun q queue => serial.taken q = queue.left.length)
          ?_ fun q _ => linearizes.taken q
        rw [left, linearizes.taken]
      · refine updated (fun q queue => serial.outAt q = queue.out) ?_
          fun q _ => linearizes.out q
        rw [Queue.out, left, linearizes.out, Queue.out]
  | stages act at_ moved left =>
      rw [← linearizes.stage] at moved
      refine ⟨_, Outgoing.reaches_stage at_ moved, ?_, ?_, ?_⟩
      · refine updated (fun q queue =>
          Priority.update serial.stage p _ q = queue.stage) ?_ ?_
        · rw [Priority.update_same]
        · intro q other
          rw [Priority.update_other _ other, linearizes.stage]
      · refine updated (fun q queue => serial.taken q = queue.left.length)
          ?_ fun q _ => linearizes.taken q
        rw [left, linearizes.taken]
      · refine updated (fun q queue => serial.outAt q = queue.out) ?_
          fun q _ => linearizes.out q
        rw [Queue.out, left, linearizes.out, Queue.out]
  | departs slot fate stage oldest left =>
      have own : slot.batch.qos.priority = p := by
        have filed : (pipeline.queues p).stage.committed =
          (pipeline.queues p).departing := (sound p).filed
        have member := List.mem_of_getElem? oldest
        rw [filed] at member
        rcases (sound p).holds member with ⟨shares, holds⟩
        exact holds.priority_eq
      rw [← linearizes.stage, ← linearizes.taken] at oldest
      refine ⟨_, Outgoing.reaches_departed oldest fate, ?_, ?_, ?_⟩
      · refine updated (fun q queue => serial.stage q = queue.stage) ?_
          fun q _ => linearizes.stage q
        rw [stage, linearizes.stage]
      · refine updated (fun q queue =>
          Priority.update serial.taken p _ q = queue.left.length) ?_ ?_
        · rw [Priority.update_same, left, List.length_append,
            linearizes.taken]
          rfl
        · intro q other
          rw [Priority.update_other _ other, linearizes.taken]
      · refine updated (fun q queue =>
          Outgoing.outAt _ q = queue.out) ?_ ?_
        · rw [outAt_leaving serial own, if_pos rfl, out_departed left,
            linearizes.out]
        · intro q other
          rw [outAt_leaving serial own, if_neg other, List.append_nil,
            linearizes.out]

/-- The sequential side follows every run of sound queues. -/
theorem follows_of_run (sound : ∀ p, Sound p (pipeline.queues p))
    (linearizes : Linearizes pipeline serial) {actions : List Action}
    (ran : run pipeline actions = some after) :
    ∃ last, serial.Reaches last ∧ Linearizes after last := by
  have keeps : ∀ before action after,
      (∀ p, Sound p (queues before p)) → step before action = some after →
        ∀ p, Sound p (queues after p) := by
    intro before action after sound stepped p
    exact ((step_did stepped).moves p).sound (sound p)
  have follows : ∀ before action after serial,
      (∀ p, Sound p (queues before p)) → step before action = some after →
        Linearizes before serial →
          ∃ next, serial.Reaches next ∧ Linearizes after next := by
    intro before action after serial sound stepped linearizes
    rcases (step_did stepped).single with same | ⟨p, act, queue, moved, same⟩
    · refine ⟨serial, serial.reaches_self, ?_, ?_, ?_⟩
      · rw [same]
        exact linearizes.stage
      · rw [same]
        exact linearizes.taken
      · rw [same]
        exact linearizes.out
    · exact linearizes.step sound moved same
  exact Runs.simulation Outgoing.reaches_self
    (fun _ _ _ front back => front.trans back) keeps follows sound
    linearizes ran

/--
Every run of the concurrent pipeline has a run of the sequential side that
ends with the same stages, the same number of batches taken out of every
ring and the same batches handed out at every priority.
-/
theorem linearizes_of_run {capacity batchSize : Nat}
    (small : batchSize ≤ 65535) {actions : List Action}
    (ran : run (new capacity batchSize) actions = some pipeline) :
    ∃ moves serial, (∀ next ∈ moves, next.Sized) ∧
      Outgoing.run (.new batchSize) moves = .ok serial ∧
        Linearizes pipeline serial := by
  rcases follows_of_run (fun p => sound_new p capacity small)
      (linearizes_new capacity batchSize) ran with
    ⟨serial, ⟨moves, sized, moved⟩, linearizes⟩
  exact ⟨moves, serial, sized, moved, linearizes⟩

/-- A batch is pushed, flushed by the puller and handed out. -/
theorem linearizes_of_run_handed :
    ∃ pipeline : Pipeline, (pipeline.queues .medium).out.length = 1 ∧
      ∃ moves serial, (∀ next ∈ moves, next.Sized) ∧
        Outgoing.run (.new 100) moves = .ok serial ∧
          Linearizes pipeline serial := by
  have passed : (run (new 1 100)
      ([.call shortMessage ⟨9⟩] ++ List.replicate 12 (.push .medium 0) ++
        [.pull .tryPull] ++ List.replicate 6 (.puller false))).any
          (fun pipeline => (pipeline.queues .medium).out.length = 1) =
            true := by
    decide +kernel
  rcases Runs.exists_of_any passed with ⟨pipeline, ran, handed⟩
  exact ⟨pipeline, of_decide_eq_true handed,
    linearizes_of_run (by decide) ran⟩

/-! ## What a receiver gets -/

/-- The batches handed out, in any order that keeps the one of each queue. -/
def HandedInOrder (pipeline : Pipeline) (out : List WriteBatch) : Prop :=
  ∀ p, (out.filter fun batch => batch.qos.priority = p).Sublist
    (pipeline.queues p).out

/-- The sequential side could have handed the batches out in this order. -/
theorem ordered_of_run {capacity batchSize : Nat} (least : 19 ≤ batchSize)
    (most : batchSize ≤ 65535) {actions : List Action}
    (ran : run (new capacity batchSize) actions = some pipeline)
    {out : List WriteBatch} (handed : HandedInOrder pipeline out) :
    ∃ serial : Outgoing, serial.Ordered ∧ serial.out = out ∧
      (∀ p, serial.stage p = (pipeline.queues p).stage) ∧
      ∀ p, serial.taken p = (pipeline.queues p).left.length := by
  rcases follows_of_run (fun p => sound_new p capacity most)
      (linearizes_new capacity batchSize) ran with
    ⟨serial, ⟨moves, sized, moved⟩, linearizes⟩
  rcases Outgoing.run_ordered (Outgoing.ordered_new least most) sized with
    ⟨other, again, ordered, _⟩
  rw [moved] at again
  cases again
  refine ⟨{ serial with out := out }, ⟨ordered.described, ordered.wide,
    ordered.taken_le, fun p => ?_⟩, rfl, linearizes.stage,
    linearizes.taken⟩
  have selected := handed p
  rw [← linearizes.out p] at selected
  exact selected.trans (ordered.sublist p)

/-- Nothing is booked or left in a ring, and nothing has been discarded. -/
structure Emptied (queue : Queue) : Prop where
  booked : queue.stage.booked = none
  hand : queue.pool.hand = none
  ring : queue.pool.ring = []
  kept : ∀ departure ∈ queue.left, departure.fate = .handedOut

instance (queue : Queue) : Decidable (Emptied queue) :=
  decidable_of_iff
    (queue.stage.booked = none ∧ queue.pool.hand = none ∧
      queue.pool.ring = [] ∧
        ∀ departure ∈ queue.left, departure.fate = .handedOut)
    ⟨fun ⟨booked, hand, ring, kept⟩ => ⟨booked, hand, ring, kept⟩,
      fun emptied =>
        ⟨emptied.booked, emptied.hand, emptied.ring, emptied.kept⟩⟩

/-- Every batch of an emptied queue has been handed out. -/
theorem Emptied.committed {queue : Queue} (emptied : Emptied queue)
    (filed : Filed queue) :
    queue.stage.committed.map WriteBatch.writeLen = queue.out ∧
      queue.stage.committed.length = queue.left.length := by
  have committed : queue.stage.committed = queue.departing := filed
  have all : queue.left.filter (fun departure =>
      departure.fate = .handedOut) = queue.left := by
    rw [List.filter_eq_self]
    intro departure member
    simp [emptied.kept departure member]
  rw [committed, Queue.departing, emptied.hand, emptied.ring, Queue.out,
    all]
  simp [Function.comp_def]

/-- With emptied queues the sequential side is drained and lossless. -/
theorem drained_of_run {capacity batchSize : Nat} (least : 19 ≤ batchSize)
    (most : batchSize ≤ 65535) {actions : List Action}
    (ran : run (new capacity batchSize) actions = some pipeline)
    (emptied : ∀ p, Emptied (pipeline.queues p)) {out : List WriteBatch}
    (handed : ∀ p, (out.filter fun batch => batch.qos.priority = p) =
      (pipeline.queues p).out) :
    ∃ serial : Outgoing, serial.Ordered ∧ serial.Drained ∧
      serial.Lossless ∧ serial.out = out ∧
        ∀ p, serial.stage p = (pipeline.queues p).stage := by
  have sound := sound_of_run most ran
  have inOrder : HandedInOrder pipeline out := fun p =>
    handed p ▸ List.Sublist.refl _
  rcases ordered_of_run least most ran inOrder with
    ⟨serial, ordered, rfl, stage, taken⟩
  have drained : serial.Drained := by
    intro p
    rw [stage p, taken p]
    exact ⟨(emptied p).booked,
      ((emptied p).committed (sound p).filed).2.symm⟩
  refine ⟨serial, ordered, drained, fun p => ?_, rfl, stage⟩
  rw [Outgoing.takenAt, (drained p).2, List.take_length, stage p,
    ((emptied p).committed (sound p).filed).1]
  exact handed p

end Pipeline
end Tx
end Thubo
