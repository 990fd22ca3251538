import Thubo.Pipeline.Closing

/-!
# How a push of the receiver ends

The receive pipeline with a clock, the deadlines of its pushes and an
application that can drop its end.  The deadline is tested only when the ring
has just refused the batch, and the timer of a wait is set to the time left.

A blocking batch that is not written is given up in two ways only: the
application is gone, or the ring refuses the batch after the deadline.
-/

namespace Thubo
namespace Rx
namespace Deadline

open Interleaved (State ReaderPoint)

/-- The settings of a push. -/
structure PushConfig where
  fragMaxSize : Nat
  timeoutDrop : Nat
  timeoutBlock : Nat
deriving DecidableEq, Repr

/-- How long a batch may wait for its ring. -/
def PushConfig.timeout (config : PushConfig) (batch : ReadBatch) : Nat :=
  match batch.qos.congestionControl with
  | .block => config.timeoutBlock
  | .drop => config.timeoutDrop

/-- A push whose batch is being offered to its ring. -/
structure Offering where
  batch : ReadBatch
  /-- When it began. -/
  start : Nat
  timeout : Nat
  /-- What had been written to the rings before. -/
  written : Priority → List ReadBatch

/-- A push that has ended. -/
structure Ended where
  offering : Offering
  result : Except SendError Bool
  /-- When it ended. -/
  clock : Nat
  /-- What had been written to the rings by then. -/
  written : Priority → List ReadBatch
  /-- The ring had refused the batch when it was last offered. -/
  refused : Bool
  /-- The application had dropped its end. -/
  hungUp : Bool

structure Timed where
  pipe : State
  clock : Nat
  /-- The push in progress. -/
  push : Option Offering
  /-- The ring has refused the batch when it was last offered. -/
  refused : Bool
  /-- When the timer of the wait for room expires. -/
  wake : Nat
  /-- The application has dropped its end. -/
  hungUp : Bool
  ended : List Ended

inductive Action where
  /-- Time passes. -/
  | tick (duration : Nat)
  /-- The reader task pushes the window of a buffer it has read. -/
  | push (chunk : Chunk) (config : PushConfig)
  /-- The reader task goes on. -/
  | reader
  /-- The wait for room ends with a notification. -/
  | room
  /-- The wait for room ends because the application is gone. -/
  | closed
  /-- The wait for room ends with its timer. -/
  | expired
  /-- The reader task is cancelled and drops its end. -/
  | drop
  /-- The application calls `pull` or `try_pull`. -/
  | call
  /-- The application goes on. -/
  | app
  /-- The call returns without a message, or is cancelled while it waits. -/
  | leave
  /-- The application drops its end. -/
  | hangUp
deriving DecidableEq, Repr

def init (exponent : Nat) (small : exponent ≤ 7) : Timed where
  pipe := Interleaved.init exponent small
  clock := 0
  push := none
  refused := false
  wake := 0
  hungUp := false
  ended := []

namespace Timed

/-- A step of the pipeline below. -/
def goes (state : Timed) (action : Interleaved.Action) : Option Timed :=
  (Interleaved.step state.pipe action).map fun pipe =>
    { state with pipe := pipe }

/-- The push in progress returns. -/
def finish (state : Timed) (result : Except SendError Bool) : Timed :=
  { state with
    push := none
    ended := state.ended ++ (state.push.map fun offering =>
      ⟨offering, result, state.clock, state.pipe.inserted, state.refused,
        state.hungUp⟩).toList }

/-- The push begins to offer the batch that the decoding half delivers. -/
def begin (state : Timed) (config : PushConfig) : Timed :=
  match state.pipe.reader with
  | .offer batch =>
      { state with
        push := some ⟨batch, state.clock, config.timeout batch,
          state.pipe.inserted⟩ }
  | _ => state

/-- The ring has been tested for room. -/
def tested (state : Timed) : Timed :=
  match state.pipe.reader with
  | .insert _ => { state with refused := false }
  | _ => { state with refused := true }

/-- Compute the time left, and give up or wait that long for room. -/
def computeTimeout (state : Timed) (offering : Offering) : Option Timed :=
  let elapsed := state.clock - offering.start
  if offering.timeout < elapsed then
    (state.goes .deadline).map fun state => state.finish (.error .timeout)
  else
    (state.goes .reader).map fun state =>
      { state with wake := state.clock + (offering.timeout - elapsed) }

/-- One step of the reader task. -/
def readerStep (state : Timed) : Option Timed :=
  match state.pipe.reader, state.push with
  | .offer _, _ => (state.goes .reader).map tested
  | .full batch, _ =>
      if state.pipe.congested batch.qos.priority then
        (state.goes .reader).map fun state => state.finish (.ok false)
      else
        state.goes .reader
  | .timed _, some offering => state.computeTimeout offering
  | .notify, _ =>
      if state.pipe.canRecv.set.1 then
        (state.goes .reader).map fun state => state.finish (.ok true)
      else
        (state.goes .reader).map fun state =>
          state.finish (.error .channelClosed)
  | _, _ => state.goes .reader

/-- The wait for room finds that the application is gone. -/
def closedStep (state : Timed) : Option Timed :=
  match state.pipe.reader with
  | .waiting batch =>
      let p := batch.qos.priority
      if (state.pipe.canSend p).check.1 = .err then
        let pipe :=
          { state.pipe with
            canSend := Priority.update state.pipe.canSend p
              (state.pipe.canSend p).check.2
            reader := .idle }
        some (finish { state with pipe := pipe } (.error .channelClosed))
      else
        none
  | _ => none

/-- The timer of the wait for room expires. -/
def expiredStep (state : Timed) : Option Timed :=
  match state.pipe.reader with
  | .waiting batch =>
      if state.clock < state.wake then
        none
      else
        match batch.qos.congestionControl with
        | .block => state.goes .expired
        | .drop =>
            (state.goes .expired).map fun state => state.finish (.ok false)
  | _ => none

/-- The application drops its end. -/
def hangUpStep (state : Timed) : Option Timed :=
  match state.pipe.app with
  | .idle | .closed =>
      let pipe :=
        { state.pipe with
          canRecv := state.pipe.canRecv.fail
          canSend := fun p => (state.pipe.canSend p).fail }
      some { state with pipe := pipe, hungUp := true }
  | _ => none

/-- A step of the application, as long as it has its end. -/
def appStep (state : Timed) (action : Interleaved.Action) : Option Timed :=
  if state.hungUp then none else state.goes action

/-- One step; nothing when the action is not possible. -/
def step (state : Timed) : Action → Option Timed
  | .tick duration => some { state with clock := state.clock + duration }
  | .push chunk config =>
      (state.goes (.push chunk config.fragMaxSize)).map fun state =>
        state.begin config
  | .reader => state.readerStep
  | .room => state.goes .room
  | .closed => state.closedStep
  | .expired => state.expiredStep
  | .drop =>
      (state.goes .drop).map fun state => { state with push := none }
  | .call => state.appStep .call
  | .app => state.appStep .app
  | .leave => state.appStep .leave
  | .hangUp => if state.hungUp then none else state.hangUpStep

end Timed

/-! ## Where a push stands -/

/-- The batch of the push has been written to its ring, and nothing else. -/
def Offering.Inserted (offering : Offering)
    (written : Priority → List ReadBatch) : Prop :=
  let p := offering.batch.qos.priority
  written = Priority.update offering.written p
    (offering.written p ++ [offering.batch])

/-- What is known of the push at each point of the reader task. -/
inductive Stands (written : Priority → List ReadBatch) (refused : Bool) :
    ReaderPoint → Option Offering → Prop
  | idle : Stands written refused .idle none
  | gone : Stands written refused .gone none
  | offer (offering : Offering) (unwritten : written = offering.written) :
      Stands written refused (.offer offering.batch) (some offering)
  | insert (offering : Offering)
      (unwritten : written = offering.written) :
      Stands written refused (.insert offering.batch) (some offering)
  | full (offering : Offering) (unwritten : written = offering.written)
      (full : refused = true)
      (drop : offering.batch.qos.congestionControl = .drop) :
      Stands written refused (.full offering.batch) (some offering)
  | timed (offering : Offering) (unwritten : written = offering.written)
      (full : refused = true) :
      Stands written refused (.timed offering.batch) (some offering)
  | waiting (offering : Offering)
      (unwritten : written = offering.written) (full : refused = true) :
      Stands written refused (.waiting offering.batch) (some offering)
  | notify (offering : Offering) (inserted : offering.Inserted written) :
      Stands written refused .notify (some offering)

/-- The application is gone, or the reader task is. -/
def Timed.Parted (state : Timed) : Prop :=
  state.hungUp = true ∨ state.pipe.reader = .gone

/-- How a push of a blocking batch may end. -/
inductive Ended.Concluded (ended : Ended) : Prop
  | written (ok : ended.result = .ok true)
      (inserted : ended.offering.Inserted ended.written)
  | closed (error : ended.result = .error .channelClosed)
      (gone : ended.hungUp = true)
  | late (error : ended.result = .error .timeout)
      (refused : ended.refused = true)
      (deadline : ended.offering.start + ended.offering.timeout <
        ended.clock)
      (unwritten : ended.written = ended.offering.written)

/-- What holds in every state. -/
structure Sound (state : Timed) : Prop where
  stands : Stands state.pipe.inserted state.refused state.pipe.reader
    state.push
  recv : state.pipe.canRecv.err = true → state.Parted
  send : ∀ p, (state.pipe.canSend p).err = true → state.Parted
  ended : ∀ ended ∈ state.ended,
    ended.offering.batch.qos.congestionControl = .block → ended.Concluded

theorem sound_init (exponent : Nat) (small : exponent ≤ 7) :
    Sound (init exponent small) where
  stands := .idle
  recv err := by cases err
  send p err := by cases err
  ended ended member := by cases member

variable {state after : Timed}

/-! ## Steps of the application -/

/-- The reader task, the history and the ends of the pipeline stay. -/
structure Apart (pipe after : State) : Prop where
  reader : after.reader = pipe.reader
  inserted : after.inserted = pipe.inserted
  recv : after.canRecv.err = pipe.canRecv.err
  send : ∀ p, (after.canSend p).err = (pipe.canSend p).err

theorem appStep_apart {pipe after : State}
    (taken : Interleaved.appStep pipe = some after) : Apart pipe after := by
  have reader := (Interleaved.appStep_reader taken).2
  have recv := Interleaved.appStep_err taken
  suffices rest : after.inserted = pipe.inserted ∧
      ∀ p, (after.canSend p).err = (pipe.canSend p).err from
    ⟨reader, rest.1, recv, rest.2⟩
  clear reader recv
  unfold Interleaved.appStep at taken
  split at taken
  · cases taken
    exact ⟨rfl, fun _ => rfl⟩
  · split at taken
    · cases taken
    · unfold Interleaved.inspect at taken
      dsimp only at taken
      split at taken
      · cases taken
        exact ⟨rfl, fun _ => rfl⟩
      · split at taken <;> cases taken <;> exact ⟨rfl, fun _ => rfl⟩
  · cases taken
    exact ⟨rfl, fun _ => rfl⟩
  · split at taken <;> cases taken
    exact ⟨rfl, fun _ => rfl⟩
  · cases taken
    refine ⟨rfl, fun p => ?_⟩
    dsimp only
    rw [Priority.update_apply]
    split
    · rename_i same
      rw [same]
      rfl
    · rfl
  · cases taken
    exact ⟨rfl, fun _ => rfl⟩
  · cases taken
    exact ⟨rfl, fun _ => rfl⟩
  · cases taken
    exact ⟨rfl, fun _ => rfl⟩
  · cases taken
    exact ⟨rfl, fun _ => rfl⟩
  · cases taken
  · cases taken

/-- A step of the pipeline that leaves the reader task alone. -/
theorem Sound.apart (sound : Sound state) {pipe : State}
    (apart : Apart state.pipe pipe) : Sound { state with pipe := pipe } where
  stands := by
    dsimp only
    rw [apart.inserted, apart.reader]
    exact sound.stands
  recv err := by
    rw [Timed.Parted]
    dsimp only at err ⊢
    rw [apart.recv] at err
    rw [apart.reader]
    exact sound.recv err
  send p err := by
    rw [Timed.Parted]
    dsimp only at err ⊢
    rw [apart.send] at err
    rw [apart.reader]
    exact sound.send p err
  ended := sound.ended

theorem appStep_sound (sound : Sound state)
    {action : Interleaved.Action}
    (ofApp : action = .call ∨ action = .app ∨ action = .leave)
    (taken : state.appStep action = some after) : Sound after := by
  unfold Timed.appStep at taken
  split at taken
  · cases taken
  · rcases Option.map_eq_some_iff.1 taken with ⟨pipe, stepped, rfl⟩
    apply sound.apart
    rcases ofApp with rfl | rfl | rfl
    · simp only [Interleaved.step] at stepped
      split at stepped <;> cases stepped <;>
        exact ⟨rfl, rfl, rfl, fun _ => rfl⟩
    · exact appStep_apart stepped
    · simp only [Interleaved.step] at stepped
      split at stepped <;> cases stepped <;>
        exact ⟨rfl, rfl, rfl, fun _ => rfl⟩

theorem hangUpStep_sound (sound : Sound state)
    (taken : state.hangUpStep = some after) : Sound after := by
  unfold Timed.hangUpStep at taken
  split at taken
  · cases taken
    exact ⟨sound.stands, fun _ => .inl rfl, fun _ _ => .inl rfl, sound.ended⟩
  · cases taken
    exact ⟨sound.stands, fun _ => .inl rfl, fun _ _ => .inl rfl, sound.ended⟩
  · cases taken

/-! ## Steps of the reader task -/

/-- A step of a reader task that has its end. -/
theorem Sound.move (sound : Sound state)
    (present : state.pipe.reader ≠ .gone)
    (hungUp : after.hungUp = state.hungUp)
    (recv : after.pipe.canRecv.err = state.pipe.canRecv.err)
    (send : ∀ p, (after.pipe.canSend p).err = (state.pipe.canSend p).err)
    (stands : Stands after.pipe.inserted after.refused after.pipe.reader
      after.push)
    (ended : ∀ ended ∈ after.ended, ended ∈ state.ended ∨
      (ended.offering.batch.qos.congestionControl = .block →
        ended.Concluded)) : Sound after where
  stands := stands
  recv err := by
    rw [recv] at err
    rcases sound.recv err with gone | absent
    · exact .inl (hungUp.trans gone)
    · exact absurd absent present
  send p err := by
    rw [send] at err
    rcases sound.send p err with gone | absent
    · exact .inl (hungUp.trans gone)
    · exact absurd absent present
  ended := by
    intro one member block
    rcases ended one member with old | new
    · exact sound.ended one old block
    · exact new block

/-- A test of the ring that fails leaves a point that knows it. -/
theorem stands_giveBack (offering : Offering)
    {written : Priority → List ReadBatch}
    (unwritten : written = offering.written) :
    Stands written true (Interleaved.giveBack offering.batch)
      (some offering) := by
  unfold Interleaved.giveBack
  cases control : offering.batch.qos.congestionControl with
  | block => exact .timed offering unwritten rfl
  | drop => exact .full offering unwritten rfl control

/-- The test of the ring decides between writing and waiting. -/
theorem offer_sound (sound : Sound state) {offering : Offering}
    (point : state.pipe.reader = .offer offering.batch)
    (push : state.push = some offering)
    (unwritten : state.pipe.inserted = offering.written) :
    Sound
      (Timed.tested { state with
        pipe := Interleaved.offer state.pipe offering.batch }) := by
  have present : state.pipe.reader ≠ .gone := by
    rw [point]
    exact fun same => by cases same
  have moved : ∀ {refused : Bool} {pipe : State},
      pipe.inserted = state.pipe.inserted →
      pipe.canRecv = state.pipe.canRecv →
      pipe.canSend = state.pipe.canSend →
      Stands offering.written refused pipe.reader (some offering) →
        Sound { state with pipe := pipe, refused := refused } := by
    intro refused pipe inserted recv send stands
    refine sound.move present rfl (by rw [recv]) (fun p => by rw [send]) ?_
      (fun _ old => .inl old)
    dsimp only
    rw [inserted, unwritten, push]
    exact stands
  have full := stands_giveBack offering unwritten
  have room : Stands state.pipe.inserted false (.insert offering.batch)
      (some offering) := .insert offering unwritten
  rw [unwritten] at full room
  cases test : (state.pipe.ring.isFull offering.batch.qos.priority).1 with
  | false =>
      have reader :
          (Interleaved.offer state.pipe offering.batch).reader =
            .insert offering.batch := by
        simp only [Interleaved.offer, test]
        rfl
      rw [Timed.tested]
      dsimp only
      rw [reader]
      exact moved rfl rfl rfl (by rw [reader]; exact room)
  | true =>
      have reader :
          (Interleaved.offer state.pipe offering.batch).reader =
            Interleaved.giveBack offering.batch := by
        simp only [Interleaved.offer, test]
        rfl
      have waits : Timed.tested { state with
          pipe := Interleaved.offer state.pipe offering.batch } =
            { state with
              pipe := Interleaved.offer state.pipe offering.batch
              refused := true } := by
        rw [Timed.tested]
        dsimp only
        rw [reader, Interleaved.giveBack]
        cases offering.batch.qos.congestionControl <;> rfl
      rw [waits]
      exact moved rfl rfl rfl (by rw [reader]; exact full)

/-- The reader task becomes idle and leaves the ends of the pipeline. -/
structure Quits (pipe after : State) : Prop where
  recv : after.canRecv.err = pipe.canRecv.err
  send : ∀ p, (after.canSend p).err = (pipe.canSend p).err
  idle : after.reader = .idle

/-- A push that returns is recorded and leaves the reader task idle. -/
theorem Sound.finish (sound : Sound state)
    (present : state.pipe.reader ≠ .gone) {offering : Offering}
    (push : state.push = some offering) {pipe : State}
    {result : Except SendError Bool} (quits : Quits state.pipe pipe)
    (concluded : offering.batch.qos.congestionControl = .block →
      Ended.Concluded ⟨offering, result, state.clock, pipe.inserted,
        state.refused, state.hungUp⟩) :
    Sound (Timed.finish { state with pipe := pipe } result) := by
  refine sound.move present rfl quits.recv quits.send ?_ ?_
  · change Stands pipe.inserted state.refused pipe.reader none
    rw [quits.idle]
    exact .idle
  · intro one member
    simp only [Timed.finish, push, Option.map_some, Option.toList_some,
      List.mem_append, List.mem_singleton] at member
    rcases member with old | new
    · exact .inl old
    · right
      rw [new]
      exact concluded

/-- Computing the time left gives up only after the deadline. -/
theorem computeTimeout_sound (sound : Sound state) {offering : Offering}
    (point : state.pipe.reader = .timed offering.batch)
    (push : state.push = some offering)
    (unwritten : state.pipe.inserted = offering.written)
    (refused : state.refused = true)
    (taken : state.computeTimeout offering = some after) :
    Sound after := by
  have present : state.pipe.reader ≠ .gone := by
    rw [point]
    exact fun same => by cases same
  unfold Timed.computeTimeout at taken
  dsimp only at taken
  split at taken
  · rename_i late
    simp only [Timed.goes, Interleaved.step, point, Option.map_some]
      at taken
    cases taken
    refine sound.finish present push ⟨rfl, fun _ => rfl, rfl⟩ ?_
    intro _
    exact .late rfl refused (Nat.add_lt_of_lt_sub' late) unwritten
  · simp only [Timed.goes, Interleaved.step, Interleaved.readerStep, point,
      Option.map_some] at taken
    cases taken
    refine sound.move present rfl rfl (fun _ => rfl) ?_
      (fun _ old => .inl old)
    dsimp only
    rw [push]
    exact .waiting offering unwritten refused

theorem readerStep_sound (sound : Sound state)
    (taken : state.readerStep = some after) : Sound after := by
  have stands := sound.stands
  generalize point : state.pipe.reader = reader at stands
  generalize push : state.push = offered at stands
  have present : reader ≠ .gone → state.pipe.reader ≠ .gone := by
    rw [point]
    exact id
  unfold Timed.readerStep at taken
  simp only [point, push] at taken
  cases stands with
  | idle | gone | waiting =>
      simp only [Timed.goes, Interleaved.step, Interleaved.readerStep,
        point] at taken
      cases taken
  | offer offering unwritten =>
      simp only [Timed.goes, Interleaved.step, Interleaved.readerStep,
        point] at taken
      cases taken
      exact offer_sound sound point push unwritten
  | insert offering unwritten =>
      simp only [Timed.goes, Interleaved.step, Interleaved.readerStep,
        point] at taken
      cases taken
      refine sound.move (present (by simp)) rfl rfl (fun _ => rfl) ?_
        (fun _ old => .inl old)
      dsimp only
      rw [push]
      refine .notify offering ?_
      rw [Offering.Inserted, ← unwritten]
      rfl
  | full offering unwritten full drop =>
      simp only [Timed.goes, Interleaved.step, Interleaved.readerStep,
        point] at taken
      split at taken
      · rename_i congested
        cases taken
        refine sound.finish (present (by simp)) push ⟨rfl, fun _ => rfl, rfl⟩
          ?_
        intro block
        rw [drop] at block
        cases block
      · rename_i free
        cases taken
        refine sound.move (present (by simp)) rfl rfl (fun _ => rfl) ?_
          (fun _ old => .inl old)
        dsimp only
        rw [push]
        exact .timed offering unwritten full
  | timed offering unwritten full =>
      exact computeTimeout_sound sound point push unwritten full taken
  | notify offering inserted =>
      simp only [Timed.goes, Interleaved.step, Interleaved.readerStep,
        point] at taken
      split at taken
      · cases taken
        refine sound.finish (present (by simp)) push ⟨rfl, fun _ => rfl, rfl⟩
          ?_
        intro _
        exact .written rfl inserted
      · rename_i refused
        cases taken
        refine sound.finish (present (by simp)) push ⟨rfl, fun _ => rfl, rfl⟩
          ?_
        intro _
        have gone : state.pipe.canRecv.err = true := by
          simpa [Event.set] using refused
        rcases sound.recv gone with hungUp | absent
        · exact .closed rfl hungUp
        · exact absurd absent (present (by simp))

/-- The push that waits for room. -/
theorem Stands.of_waiting {written : Priority → List ReadBatch}
    {refused : Bool} {batch : ReadBatch} {push : Option Offering}
    (stands : Stands written refused (.waiting batch) push) :
    ∃ offering, push = some offering ∧ offering.batch = batch ∧
      written = offering.written ∧ refused = true := by
  cases stands with
  | waiting offering unwritten full =>
      exact ⟨offering, rfl, rfl, unwritten, full⟩

/-- The error of a wait means that the application is gone. -/
theorem closedStep_sound (sound : Sound state)
    (taken : state.closedStep = some after) : Sound after := by
  have stands := sound.stands
  unfold Timed.closedStep at taken
  split at taken
  · rename_i batch point
    have present : state.pipe.reader ≠ .gone := by
      rw [point]
      exact fun same => by cases same
    rw [point] at stands
    rcases stands.of_waiting with ⟨offering, push, rfl, _, _⟩
    dsimp only at taken
    split at taken
    · rename_i failed
      cases taken
      have gone : (state.pipe.canSend
          offering.batch.qos.priority).err = true := by
        unfold Event.check at failed
        dsimp only at failed
        split at failed
        · assumption
        · split at failed <;> cases failed
      refine sound.finish present push ⟨rfl, ?_, rfl⟩ ?_
      · intro p
        dsimp only
        rw [Priority.update_apply]
        split
        · rename_i same
          rw [same]
          exact Interleaved.err_check _
        · rfl
      · intro _
        rcases sound.send _ gone with hungUp | absent
        · exact .closed rfl hungUp
        · exact absurd absent present
    · cases taken
  · cases taken

/-- A wait that runs out of time ends no push of a blocking batch. -/
theorem expiredStep_sound (sound : Sound state)
    (taken : state.expiredStep = some after) : Sound after := by
  have stands := sound.stands
  unfold Timed.expiredStep at taken
  split at taken
  · rename_i batch point
    have present : state.pipe.reader ≠ .gone := by
      rw [point]
      exact fun same => by cases same
    rw [point] at stands
    rcases stands.of_waiting with ⟨offering, push, rfl, unwritten, _⟩
    split at taken
    · cases taken
    · cases control : offering.batch.qos.congestionControl with
      | block =>
          simp only [control, Timed.goes, Interleaved.step, point,
            Interleaved.afterTimeout, Option.map_some] at taken
          cases taken
          refine sound.move present rfl rfl (fun _ => rfl) ?_
            (fun _ old => .inl old)
          dsimp only
          rw [push]
          exact .offer offering unwritten
      | drop =>
          simp only [control, Timed.goes, Interleaved.step, point,
            Interleaved.afterTimeout, Option.map_some] at taken
          cases taken
          refine sound.finish present push ⟨rfl, fun _ => rfl, rfl⟩ ?_
          intro block
          rw [control] at block
          cases block
  · cases taken

/-- The decoding half begins a push, or ends it without a batch. -/
theorem push_sound (sound : Sound state) {chunk : Chunk}
    {config : PushConfig}
    (taken : state.step (.push chunk config) = some after) :
    Sound after := by
  have stands := sound.stands
  rw [Timed.step] at taken
  rcases Option.map_eq_some_iff.1 taken with ⟨middle, went, rfl⟩
  rcases Option.map_eq_some_iff.1 went with ⟨pipe, stepped, rfl⟩
  simp only [Interleaved.step] at stepped
  split at stepped
  · rename_i point
    have present : state.pipe.reader ≠ .gone := by
      rw [point]
      exact fun same => by cases same
    rw [point] at stands
    generalize push : state.push = offered at stands
    cases stands
    split at stepped
    · cases stepped
    · split at stepped
      · cases stepped
      · rename_i decoded defrag _
        cases stepped
        cases decoded with
        | deliver batch =>
            refine sound.move present rfl rfl (fun _ => rfl) ?_
              (fun _ old => .inl old)
            exact .offer ⟨batch, state.clock, config.timeout batch,
              state.pipe.inserted⟩ rfl
        | _ =>
            refine sound.move present rfl rfl (fun _ => rfl) ?_
              (fun _ old => .inl old)
            exact .idle
  · cases stepped

theorem room_sound (sound : Sound state)
    (taken : state.step .room = some after) : Sound after := by
  have stands := sound.stands
  rcases Option.map_eq_some_iff.1 taken with ⟨pipe, stepped, rfl⟩
  simp only [Interleaved.step] at stepped
  split at stepped
  · rename_i batch point
    have present : state.pipe.reader ≠ .gone := by
      rw [point]
      exact fun same => by cases same
    rw [point] at stands
    rcases stands.of_waiting with ⟨offering, push, rfl, unwritten, _⟩
    split at stepped
    · cases stepped
      refine sound.move present rfl rfl ?_ ?_ (fun _ old => .inl old)
      · intro p
        dsimp only
        rw [Priority.update_apply]
        split
        · rename_i same
          rw [same]
          exact Interleaved.err_check _
        · rfl
      · dsimp only
        rw [push]
        exact .offer offering unwritten
    · cases stepped
  · cases stepped

theorem drop_sound (sound : Sound state)
    (taken : state.step .drop = some after) : Sound after := by
  rw [Timed.step] at taken
  rcases Option.map_eq_some_iff.1 taken with ⟨middle, went, rfl⟩
  rcases Option.map_eq_some_iff.1 went with ⟨pipe, stepped, rfl⟩
  simp only [Interleaved.step] at stepped
  split at stepped
  · cases stepped
    exact ⟨.gone, fun _ => .inr rfl, fun _ _ => .inr rfl, sound.ended⟩
  · cases stepped
    exact ⟨.gone, fun _ => .inr rfl, fun _ _ => .inr rfl, sound.ended⟩
  · cases stepped

/-! ## Runs -/

theorem step_sound (sound : Sound state) {action : Action}
    (taken : state.step action = some after) : Sound after := by
  cases action with
  | tick duration =>
      cases taken
      exact ⟨sound.stands, sound.recv, sound.send, sound.ended⟩
  | push chunk config => exact push_sound sound taken
  | reader => exact readerStep_sound sound taken
  | room => exact room_sound sound taken
  | closed => exact closedStep_sound sound taken
  | expired => exact expiredStep_sound sound taken
  | drop => exact drop_sound sound taken
  | call => exact appStep_sound sound (.inl rfl) taken
  | app => exact appStep_sound sound (.inr (.inl rfl)) taken
  | leave => exact appStep_sound sound (.inr (.inr rfl)) taken
  | hangUp =>
      rw [Timed.step] at taken
      split at taken
      · cases taken
      · exact hangUpStep_sound sound taken

/-- A wait of a push has run out of time, and its batch is offered again. -/
structure Offering.Renewed (offering : Offering) (state after : Timed) :
    Prop where
  push : after.push = some offering
  ended : after.ended = state.ended
  offered : after.pipe.reader = .offer offering.batch
  congested : after.pipe.congested offering.batch.qos.priority = true

theorem expiredStep_renewed (sound : Sound state) {offering : Offering}
    (push : state.push = some offering)
    (block : offering.batch.qos.congestionControl = .block)
    (taken : state.expiredStep = some after) :
    offering.Renewed state after := by
  have stands := sound.stands
  unfold Timed.expiredStep at taken
  split at taken
  · rename_i batch point
    rw [point] at stands
    rcases stands.of_waiting with ⟨other, same, rfl, _, _⟩
    rw [push] at same
    cases same
    split at taken
    · cases taken
    · simp only [block, Timed.goes, Interleaved.step, point,
        Interleaved.afterTimeout, Option.map_some] at taken
      cases taken
      exact ⟨push, rfl, rfl, Priority.update_same _ _ _⟩
  · cases taken

/--
In every run, a push of a blocking batch ends with the batch in its ring,
with the application gone, or refused by the ring after its deadline.  A wait
that runs out of time does not end it: the priority is marked congested and
the batch is offered again.
-/
theorem ended_of_run (exponent : Nat) (small : exponent ≤ 7)
    (actions : List Action) (state : Timed)
    (ran : Runs.run Timed.step (init exponent small) actions =
      some state) :
    (∀ ended ∈ state.ended,
      ended.offering.batch.qos.congestionControl = .block →
        ended.Concluded) ∧
    ∀ offering after, state.push = some offering →
      offering.batch.qos.congestionControl = .block →
        state.step .expired = some after →
          offering.Renewed state after := by
  have sound := Runs.invariant_of_step
    (fun _ _ _ sound taken => step_sound sound taken)
    (sound_init exponent small) ran
  exact ⟨sound.ended, fun _ _ push block taken =>
    expiredStep_renewed sound push block taken⟩

/-- A push of a blocking frame that may wait for five units of time. -/
def framePush : Action :=
  .push (.ofBuf [0, 1, 0, 1, 42]) ⟨100, 1, 5⟩

/--
A frame fills a ring of one batch, and a second one is offered three times,
the last time after its deadline.
-/
def lateRun : List Action :=
  [framePush, .reader, .reader, .reader, framePush, .reader, .reader,
    .tick 5, .expired, .reader, .reader, .expired, .reader, .tick 1, .reader]

/-- The second frame of that run. -/
theorem lateRun_ends :
    ∃ state,
      Runs.run Timed.step (init 0 (by decide)) lateRun = some state ∧
        ∃ ended ∈ state.ended,
          ended.offering.batch.qos.congestionControl = .block ∧
            ended.result = .error .timeout ∧ ended.hungUp = false := by
  have passed : (Runs.run Timed.step (init 0 (by decide)) lateRun).any
      (fun state => state.ended.any fun ended =>
        decide (ended.offering.batch.qos.congestionControl = .block ∧
          ended.result = .error .timeout ∧ ended.hungUp = false)) =
        true := by
    decide +kernel
  rcases Runs.exists_of_any passed with ⟨state, ran, found⟩
  rcases List.any_eq_true.1 found with ⟨ended, member, tests⟩
  exact ⟨state, ran, ended, member, of_decide_eq_true tests⟩

/-- The second wait of that run expires before its push ends. -/
theorem ended_of_run_late :
    (∃ state,
      Runs.run Timed.step (init 0 (by decide)) lateRun = some state ∧
        ∃ ended ∈ state.ended,
          ended.result = .error .timeout ∧ ended.Concluded) ∧
    ∃ (state : Timed) (offering : Offering) (after : Timed),
      Runs.run Timed.step (init 0 (by decide)) (lateRun.take 11) =
          some state ∧
        state.step .expired = some after ∧
          offering.Renewed state after := by
  constructor
  · rcases lateRun_ends with ⟨state, ran, ended, member, block, late, _⟩
    exact ⟨state, ran, ended, member, late,
      (ended_of_run 0 (by decide) lateRun state ran).1 ended member block⟩
  · have passed : (Runs.run Timed.step (init 0 (by decide))
        (lateRun.take 11)).any (fun state =>
          (state.step .expired).isSome && state.push.any fun offering =>
            decide (offering.batch.qos.congestionControl = .block)) =
          true := by
      decide +kernel
    rcases Runs.exists_of_any passed with ⟨state, ran, met⟩
    rw [Bool.and_eq_true] at met
    rcases Option.isSome_iff_exists.1 met.1 with ⟨after, taken⟩
    rcases (Option.any_eq_true _ _).1 met.2 with ⟨offering, push, block⟩
    exact ⟨state, offering, after, ran, taken,
      (ended_of_run 0 (by decide) (lateRun.take 11) state ran).2 offering
        after push (of_decide_eq_true block) taken⟩

/-- The receiver gives up a blocking frame while the application is there. -/
theorem block_given_up :
    ∃ state,
      Runs.run Timed.step (init 0 (by decide)) lateRun = some state ∧
        ∃ ended ∈ state.ended,
          ended.offering.batch.qos.congestionControl = .block ∧
            ended.hungUp = false ∧
            ¬ (ended.result = .ok true ∨
              ended.result = .error .channelClosed) := by
  rcases lateRun_ends with
    ⟨state, ran, ended, member, block, late, present⟩
  refine ⟨state, ran, ended, member, block, present, ?_⟩
  rw [late]
  rintro (ok | closed)
  · cases ok
  · cases closed

end Deadline
end Rx
end Thubo
