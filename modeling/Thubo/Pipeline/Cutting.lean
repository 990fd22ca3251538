import Mathlib.Logic.Function.Iterate
import Thubo.Pipeline.Leftover

/-!
# How a message is cut into fragments

A push that gets a batch whenever it needs one goes on until it has written
its message.  The header of a fragment grows with its sequence number, while
only the first fragment is checked against the room for it: the others must
have room for their header and for at least one byte of the message.
-/

namespace Thubo
namespace Tx

/-! ## The loop -/

/-- The running push gets a batch whenever it needs one. -/
def Stage.drive (flush : Bool) : Nat → Stage → Except Fault Stage
  | 0, stage => .ok stage
  | rounds + 1, stage =>
      match stage.running with
      | none => .ok stage
      | some push => do
          let stage ← stage.resume push flush
          drive flush rounds stage

section

variable {stage middle after final : Stage} {push : Push} {flush : Bool}

theorem Stage.drive_idle (idle : stage.running = none) (rounds : Nat) :
    stage.drive flush rounds = .ok stage := by
  cases rounds with
  | zero => rfl
  | succ rounds => rw [Stage.drive, idle]

theorem Stage.drive_resume (isRunning : stage.running = some push)
    (rounds : Nat) :
    stage.drive flush (rounds + 1) =
      (stage.resume push flush >>= fun after =>
        after.drive flush rounds) := by
  rw [Stage.drive, isRunning]

/-- The rounds after some rounds. -/
theorem Stage.drive_add {rounds : Nat}
    (ran : stage.drive flush rounds = .ok middle) (more : Nat) :
    stage.drive flush (rounds + more) = middle.drive flush more := by
  induction rounds generalizing stage with
  | zero =>
      cases ran
      rw [Nat.zero_add]
  | succ rounds hypothesis =>
      cases isRunning : stage.running with
      | none =>
          rw [drive_idle isRunning] at ran
          cases ran
          rw [drive_idle isRunning, drive_idle isRunning]
      | some push =>
          rw [drive_resume isRunning] at ran
          rw [Nat.succ_add, drive_resume isRunning]
          cases resumed : stage.resume push flush with
          | error fault =>
              rw [resumed] at ran
              cases ran
          | ok after =>
              rw [resumed, ok_bind] at ran
              rw [ok_bind]
              exact hypothesis ran

/-- A push that has ended had not ended before. -/
theorem Stage.drive_rest {rounds total : Nat}
    (ran : stage.drive flush rounds = .ok middle)
    (unfinished : middle.running = some push)
    (whole : stage.drive flush total = .ok final)
    (idle : final.running = none) :
    ∃ more, middle.drive flush more = .ok final := by
  rcases Nat.le_total rounds total with le | le
  · rcases Nat.exists_eq_add_of_le le with ⟨more, rfl⟩
    rw [drive_add ran] at whole
    exact ⟨more, whole⟩
  · rcases Nat.exists_eq_add_of_le le with ⟨more, rfl⟩
    rw [drive_add whole, drive_idle idle] at ran
    cases ran
    rw [idle] at unfinished
    cases unfinished

/-! ## Committed fragments stay -/

/-- The push that runs, if any, is between two fragments. -/
def Stage.BetweenFragments (stage : Stage) : Prop :=
  ∀ push, stage.running = some push →
    ∃ seqNum fragId reader, push.point = .fragments seqNum fragId reader

theorem moveFragment_extends {batch : WriteBatch} {fragId : SeqNum}
    {reader : BytesReader}
    (moved : stage.moveFragment push batch fragId reader = .ok after) :
    stage.Extends after ∧ after.BetweenFragments := by
  unfold Stage.moveFragment at moved
  cases left : reader.remaining with
  | error fault =>
      simp only [left, error_bind] at moved
      cases moved
  | ok remaining =>
      simp only [left, ok_bind] at moved
      split at moved
      · cases moved
        refine ⟨⟨rfl, List.prefix_append _ _⟩, ?_⟩
        intro next isRunning
        cases isRunning
        exact ⟨_, _, _, rfl⟩
      · cases moved
        refine ⟨⟨rfl, List.prefix_append _ _⟩, ?_⟩
        intro next isRunning
        cases isRunning

theorem resume_extends (isRunning : stage.running = some push)
    (between : stage.BetweenFragments)
    (resumed : stage.resume push flush = .ok after) :
    stage.Extends after ∧ after.BetweenFragments := by
  rcases between push isRunning with ⟨seqNum, fragId, reader, point⟩
  simp only [Stage.resume, point, Stage.fragmentStep] at resumed
  cases continued : WriteBatch.continueFragments
      (stage.batch push.qos stage.dropFlag) (.new push.qos seqNum) fragId
      reader with
  | error fault =>
      simp only [continued, error_bind] at resumed
      cases resumed
  | ok fragmented =>
      simp only [continued, ok_bind] at resumed
      cases fragmented with
      | failed error batch =>
          cases resumed
          refine ⟨⟨rfl, List.prefix_refl _⟩, ?_⟩
          intro next isRunning
          cases isRunning
      | written batch reader =>
          change (stage.takeNumber seqNum
            push.qos.congestionControl).moveFragment push batch fragId
              reader = .ok after at resumed
          have moved := moveFragment_extends resumed
          exact moved

/-- What has been committed when a fragment is due stays committed. -/
theorem drive_extends {rounds : Nat} (between : stage.BetweenFragments)
    (ran : stage.drive flush rounds = .ok after) :
    stage.committed <+: after.committed := by
  induction rounds generalizing stage with
  | zero =>
      cases ran
      exact List.prefix_refl _
  | succ rounds hypothesis =>
      cases isRunning : stage.running with
      | none =>
          rw [Stage.drive_idle isRunning] at ran
          cases ran
          exact List.prefix_refl _
      | some push =>
          rw [Stage.drive_resume isRunning] at ran
          cases resumed : stage.resume push flush with
          | error fault =>
              rw [resumed] at ran
              cases ran
          | ok next =>
              rw [resumed, ok_bind] at ran
              rcases resume_extends isRunning between resumed with
                ⟨extends_, later⟩
              exact extends_.2.trans (hypothesis later ran)

end

/-! ## Fragments and their headers -/

/-- What decides how a message is cut. -/
structure Plan where
  batchSize : Nat
  qos : QoS
  msg : Bytes
  /-- The sequence number of the first batch. -/
  first : SeqNum
  fragId : SeqNum

/-- The plan of a push that is about to start a frame. -/
def Stage.plan (stage : Stage) (push : Push) : Plan where
  batchSize := stage.batchSize
  qos := push.qos
  msg := push.msg
  first := (stage.pool.gen push.qos.congestionControl).next
  fragId := stage.pool.fragId.next

/-- A fragment with what follows its header. -/
structure Piece where
  kind : FragmentKind
  body : List UInt8
deriving DecidableEq, Repr

namespace Plan

/-- The sequence number of the `k`th batch. -/
def number (plan : Plan) (k : Nat) : SeqNum :=
  SeqNum.next^[k] plan.first

def header (plan : Plan) (k : Nat) : MessageHeader :=
  .new plan.qos (plan.number k)

/-- The length of the header of the `k`th fragment. -/
def headerLen (plan : Plan) (k : Nat) : Nat :=
  WriteBatch.fragmentWLen (plan.header k) plan.fragId

/-- The length of a frame with the whole message. -/
def frameLen (plan : Plan) : Nat :=
  (Message.mk (plan.header 0) (.frame .new)).wLen + plan.msg.wLen

/-- The length of the first header with the length of the message. -/
def openLen (plan : Plan) : Nat :=
  plan.headerLen 0 + vleLen plan.msg.len

/--
How many bytes of the message the fragments up to the `k`th carry when they
take all the room that their headers leave.
-/
def offset (plan : Plan) : Nat → Nat
  | 0 => plan.batchSize - plan.openLen
  | k + 1 => plan.offset k + (plan.batchSize - plan.headerLen (k + 1))

/--
The message fits a frame, or the first header does not fit, or every further
header that is needed leaves room for a byte.
-/
def Roomy (plan : Plan) : Prop :=
  plan.frameLen ≤ plan.batchSize ∨ plan.batchSize < plan.openLen ∨
    ∀ k, plan.offset k < plan.msg.len →
      plan.headerLen (k + 1) < plan.batchSize

/-- The bytes of the `k`th fragment. -/
def image (plan : Plan) (k : Nat) (piece : Piece) : List UInt8 :=
  (Message.mk (plan.header k)
    (.fragment (.new piece.kind plan.fragId))).bytes ++ piece.body

/-- The first fragment and the ones after it. -/
def begun (plan : Plan) (front : List UInt8) (mores : List (List UInt8)) :
    List Piece :=
  ⟨.first, vleBytes plan.msg.len ++ front⟩ ::
    mores.map (Piece.mk .more)

theorem length_begun (plan : Plan) (front : List UInt8)
    (mores : List (List UInt8)) :
    (plan.begun front mores).length = mores.length + 1 := by
  rw [begun, List.length_cons, List.length_map]

theorem begun_concat (plan : Plan) (front : List UInt8)
    (mores : List (List UInt8)) (payload : List UInt8) :
    plan.begun front (mores ++ [payload]) =
      plan.begun front mores ++ [Piece.mk .more payload] := by
  rw [begun, List.map_append]
  rfl

/--
The batches hold the message in fragments: a first one, further ones of which
each carries a byte or more, and at the end the only last one.
-/
inductive Cut (plan : Plan) (batches : List WriteBatch) : Prop where
  | intro (front : List UInt8) (mores : List (List UInt8))
      (back : List UInt8)
      (whole : front ++ mores.flatten ++ back = plan.msg.toVec)
      (carry : ∀ payload ∈ mores, payload ≠ [])
      (ends : back ≠ [])
      (few : mores.length + 1 ≤ plan.msg.len)
      (images : batches.map WriteBatch.content =
        (plan.begun front mores ++ [Piece.mk .last back]).mapIdx plan.image)

/-- How a push that never waits ends, with the batches it has committed. -/
inductive Outcome (plan : Plan) (before after : Stage)
    (emitted : List WriteBatch) : Prop where
  /-- The message is written to a frame. -/
  | framed (batch : WriteBatch)
      (place : after.booked = some batch ∧ emitted = [] ∨
        after.booked = none ∧ emitted = [batch])
      (content : batch.content =
        (Message.mk (plan.header 0) (.frame .new)).bytes ++
          plan.msg.encoded)
      (log : after.log = before.log ++ [⟨plan.msg, plan.qos, .ok ()⟩])
  /-- The first header does not fit. -/
  | refused (nothing : emitted = [])
      (log : after.log =
        before.log ++ [⟨plan.msg, plan.qos, .error .encodingFailed⟩])
  /-- The message is cut into fragments. -/
  | cut (fragments : plan.Cut emitted)
      (log : after.log = before.log ++ [⟨plan.msg, plan.qos, .ok ()⟩])

end Plan

/--
A push that gets a batch whenever it needs one ends without a fault, and each
of its fragments carries a byte.
-/
def Stage.Regular (stage : Stage) (push : Push) (flush : Bool) : Prop :=
  ∃ rounds after emitted, stage.drive flush rounds = .ok after ∧
    after.running = none ∧
    after.committed = stage.committed ++ emitted ∧
    (stage.plan push).Outcome stage after emitted

/-! ## One fragment after another -/

namespace Plan

variable {plan : Plan} {before stage after : Stage} {front : List UInt8}
variable {mores : List (List UInt8)} {flush : Bool}

theorem number_succ (plan : Plan) (k : Nat) :
    plan.number (k + 1) = (plan.number k).next :=
  Function.iterate_succ_apply' _ _ _

theorem length_image (plan : Plan) (k : Nat) (piece : Piece) :
    (plan.image k piece).length = plan.headerLen k + piece.body.length := by
  rw [image, List.length_append, Message.length_bytes,
    WriteBatch.wLen_fragment]
  rfl

/-- The rest of the message after some fragments. -/
def rest (plan : Plan) (k : Nat) : List UInt8 :=
  plan.msg.toVec.drop (plan.offset k)

theorem length_rest (plan : Plan) (k : Nat) :
    (plan.rest k).length = plan.msg.len - plan.offset k := by
  rw [rest, List.length_drop, Bytes.length_toVec]

/-- The room of the `k`th fragment after its header. -/
def room (plan : Plan) (k : Nat) : Nat :=
  plan.batchSize - plan.headerLen k

/-- A push that has committed its first fragment and some further ones. -/
structure Going (plan : Plan) (before : Stage) (front : List UInt8)
    (mores : List (List UInt8)) (stage : Stage) : Prop where
  size : stage.batchSize = plan.batchSize
  free : stage.booked = none
  log : stage.log = before.log
  running : ∃ reader : BytesReader, reader.Placed ∧
    reader.rest = plan.rest mores.length ∧
    stage.running = some ⟨plan.msg, plan.qos,
      .fragments (plan.number (mores.length + 1)) plan.fragId reader⟩
  committed : ∃ batches : List WriteBatch,
    stage.committed = before.committed ++ batches ∧
    batches.map WriteBatch.content =
      (plan.begun front mores).mapIdx plan.image
  whole : front ++ mores.flatten ++ plan.rest mores.length =
    plan.msg.toVec
  unfinished : plan.offset mores.length < plan.msg.len

/-- A push that has ended after its last fragment. -/
structure Gone (plan : Plan) (before : Stage) (front : List UInt8)
    (mores : List (List UInt8)) (after : Stage) : Prop where
  idle : after.running = none
  log : after.log = before.log ++ [⟨plan.msg, plan.qos, .ok ()⟩]
  committed : ∃ batches : List WriteBatch,
    after.committed = before.committed ++ batches ∧
    batches.map WriteBatch.content =
      (plan.begun front mores ++
        [Piece.mk .last (plan.rest mores.length)]).mapIdx plan.image

/-- A fragment that is committed joins the others. -/
theorem images_concat {batches : List WriteBatch} {pieces : List Piece}
    (images : batches.map WriteBatch.content = pieces.mapIdx plan.image)
    {batch : WriteBatch} {piece : Piece}
    (content : batch.content = plan.image pieces.length piece) :
    (batches ++ [batch]).map WriteBatch.content =
      (pieces ++ [piece]).mapIdx plan.image := by
  rw [List.map_append, List.mapIdx_append, images, List.map_singleton,
    List.mapIdx_singleton, content, Nat.zero_add]

theorem rest_succ (plan : Plan) (k : Nat) :
    plan.rest (k + 1) = (plan.rest k).drop (plan.room (k + 1)) := by
  rw [rest, offset, ← List.drop_drop]
  rfl

/-- The push writes the next fragment and commits it. -/
theorem Going.fragment (going : Going plan before front mores stage)
    (flush : Bool)
    (fits : plan.headerLen (mores.length + 1) ≤ plan.batchSize) :
    ∃ (reader next : BytesReader) (batch : WriteBatch),
      next.Placed ∧ next.rest = plan.rest (mores.length + 1) ∧
      batch.content = plan.image (mores.length + 1)
        ⟨WriteBatch.kindOf (plan.room (mores.length + 1))
            (plan.rest mores.length).length,
          (plan.rest mores.length).take (plan.room (mores.length + 1))⟩ ∧
      stage.drive flush 1 =
        ((stage.takeNumber (plan.number (mores.length + 1))
          plan.qos.congestionControl).moveFragment
            ⟨plan.msg, plan.qos,
              .fragments (plan.number (mores.length + 1)) plan.fragId
                reader⟩
            batch plan.fragId next >>= .ok) := by
  rcases going.running with ⟨reader, placed, rest, isRunning⟩
  have fresh := (refilled_fresh going.free plan.qos stage.dropFlag).1
  have remaining : (stage.batch plan.qos stage.dropFlag).frame.remaining =
      plan.batchSize := by
    rw [fresh.remaining_eq, going.size]
  rcases WriteBatch.continueFragments_fits fresh.writable
      (.new plan.qos (plan.number (mores.length + 1))) plan.fragId placed
      (by rw [remaining]; exact fits) with ⟨batch, next, ran, carried⟩
  have taken := carried.content_eq
  have left := carried.rest_eq
  rw [remaining, rest, fresh.content_eq, List.nil_append] at taken
  rw [remaining, rest] at left
  refine ⟨reader, next, batch, carried.placed, ?_, ?_, ?_⟩
  · rw [left, rest_succ]
    rfl
  · exact taken
  · rw [Stage.drive_resume isRunning]
    simp only [Stage.resume, Stage.fragmentStep, ran, ok_bind]
    rfl

/-- A fragment with room for all the rest is the last one. -/
theorem Going.last (going : Going plan before front mores stage)
    (flush : Bool)
    (fits : plan.headerLen (mores.length + 1) ≤ plan.batchSize)
    (all : plan.msg.len ≤ plan.offset (mores.length + 1)) :
    ∃ after, stage.drive flush 1 = .ok after ∧
      Gone plan before front mores after := by
  rcases going.fragment flush fits with
    ⟨reader, next, batch, placed, left, content, ran⟩
  have length := plan.length_rest mores.length
  have covered : (plan.rest mores.length).length ≤
      plan.room (mores.length + 1) := by
    rw [offset] at all
    unfold room
    omega
  rw [WriteBatch.kindOf, if_pos covered,
    List.take_of_length_le covered] at content
  have nothing : next.rest.length = 0 := by
    rw [left, length_rest]
    omega
  rw [Stage.moveFragment] at ran
  simp only [placed.remaining_eq, ok_bind, nothing, ne_eq,
    not_true_eq_false, if_false] at ran
  rcases going.committed with ⟨batches, committed, images⟩
  refine ⟨_, ran, rfl, ?_, batches ++ [batch], ?_, ?_⟩
  · change stage.log ++ _ = _
    rw [going.log]
  · change stage.committed ++ _ = _
    rw [committed, List.append_assoc]
  · exact images_concat images
      ((length_begun plan front mores).symm ▸ content)

/-- Otherwise more of them follow. -/
theorem Going.more (going : Going plan before front mores stage)
    (flush : Bool)
    (fits : plan.headerLen (mores.length + 1) ≤ plan.batchSize)
    (some_ : plan.offset (mores.length + 1) < plan.msg.len) :
    ∃ after, stage.drive flush 1 = .ok after ∧
      Going plan before front
        (mores ++ [(plan.rest mores.length).take
          (plan.room (mores.length + 1))]) after := by
  rcases going.fragment flush fits with
    ⟨reader, next, batch, placed, left, content, ran⟩
  have length := plan.length_rest mores.length
  have uncovered : ¬ plan.room (mores.length + 1) ≥
      (plan.rest mores.length).length := by
    rw [offset] at some_
    unfold room
    omega
  rw [WriteBatch.kindOf, if_neg uncovered] at content
  have something : next.rest.length ≠ 0 := by
    rw [left, length_rest]
    omega
  rw [Stage.moveFragment] at ran
  simp only [placed.remaining_eq, ok_bind, something, ne_eq,
    not_false_eq_true, if_true] at ran
  rcases going.committed with ⟨batches, committed, images⟩
  have count : (mores ++ [(plan.rest mores.length).take
      (plan.room (mores.length + 1))]).length = mores.length + 1 := by
    rw [List.length_append, List.length_singleton]
  refine ⟨_, ran, going.size, rfl, going.log, ?_, ?_, ?_, ?_⟩
  · refine ⟨next, placed, ?_, ?_⟩
    · rw [count, left]
    · rw [count, number_succ plan (mores.length + 1)]
      simp [Stage.suspend, Stage.commit, Stage.takeNumber]
  · refine ⟨batches ++ [batch], ?_, ?_⟩
    · change stage.committed ++ _ = _
      rw [committed, List.append_assoc]
    · rw [begun_concat]
      exact images_concat images
        ((length_begun plan front mores).symm ▸ content)
  · have whole := going.whole
    rw [count, rest_succ, List.flatten_append, List.flatten_singleton]
    simp only [List.append_assoc, List.take_append_drop] at whole ⊢
    exact whole
  · rw [count]
    exact some_

/-- A header that does not fit makes the subtraction underflow. -/
theorem Going.underflow (going : Going plan before front mores stage)
    (narrow : plan.batchSize < plan.headerLen (mores.length + 1))
    (rounds : Nat) :
    stage.drive flush (rounds + 1) = .error .arithmetic := by
  rcases going.running with ⟨reader, placed, rest, isRunning⟩
  have fresh := (refilled_fresh going.free plan.qos stage.dropFlag).1
  have capacity : checkedSub
      (stage.batch plan.qos stage.dropFlag).frame.remaining
      (Message.mk (.new plan.qos (plan.number (mores.length + 1)))
        (.fragment (.new .more plan.fragId))).wLen =
        .error .arithmetic := by
    rw [fresh.remaining_eq, going.size, checkedSub, if_neg]
    exact Nat.not_le_of_lt narrow
  rw [Stage.drive_resume isRunning]
  simp only [Stage.resume, Stage.fragmentStep,
    WriteBatch.continueFragments, capacity, error_bind]

end Plan

/-! ## The first batch -/

section

variable {stage : Stage} {push : Push} {flush : Bool}

/-- The push is about to start a frame on a new batch. -/
structure Stage.Opens (stage : Stage) (push : Push) : Prop where
  running : stage.running = some push
  free : stage.booked = none
  waits : push.point = .start ∨ push.point = .fresh
  bounded : push.msg.len < 2 ^ 64

theorem Stage.Opens.fresh (opens : stage.Opens push) :
    (stage.batch push.qos none).Fresh stage.batchSize :=
  (refilled_fresh opens.free push.qos none).1

theorem Stage.Opens.resume (opens : stage.Opens push) :
    stage.resume push flush =
      stage.frameStep push (stage.batch push.qos none) flush := by
  rcases opens.waits with point | point
  · have empty : (stage.batch push.qos none).isEmpty = true := by
      have length := (stage.batch push.qos none).length_content
      rw [opens.fresh.content_eq] at length
      simp [WriteBatch.isEmpty, WriteBatch.len, ← length]
    simp only [Stage.resume, point, empty, if_true]
  · simp only [Stage.resume, point]

/-- A frame is tried first. -/
theorem Stage.Opens.startFrame (opens : stage.Opens push) :
    ((stage.plan push).frameLen ≤ stage.batchSize →
      ∃ batch, (stage.batch push.qos none).startFrame
          ((stage.plan push).header 0) push.msg = .ok (true, batch) ∧
        batch.content =
          (Message.mk ((stage.plan push).header 0) (.frame .new)).bytes ++
            push.msg.encoded) ∧
    (stage.batchSize < (stage.plan push).frameLen →
      (stage.batch push.qos none).startFrame ((stage.plan push).header 0)
        push.msg = .ok (false, stage.batch push.qos none)) := by
  have fresh := opens.fresh
  have spec := (stage.batch push.qos none).startFrame_spec
    ((stage.plan push).header 0) opens.bounded
  have length : ((Message.mk ((stage.plan push).header 0)
      (.frame .new)).bytes ++ push.msg.encoded).length =
        (stage.plan push).frameLen :=
    WriteBatch.length_frame _ opens.bounded
  constructor
  · intro fits
    refine ⟨_, spec.1 (by rwa [length, fresh.remaining_eq]), ?_⟩
    rw [WriteBatch.content_put fresh.headed fresh.fragment_eq,
      fresh.content_eq, List.nil_append]
  · intro long
    exact spec.2 (by rwa [length, fresh.remaining_eq])

/-- A message that fits a frame is written to it. -/
theorem Stage.Opens.framed (opens : stage.Opens push) (flush : Bool)
    (fits : (stage.plan push).frameLen ≤ stage.batchSize) :
    ∃ after emitted, stage.drive flush 1 = .ok after ∧
      after.running = none ∧
      after.committed = stage.committed ++ emitted ∧
      (stage.plan push).Outcome stage after emitted := by
  rcases opens.startFrame.1 fits with ⟨batch, ran, content⟩
  have resumed : stage.resume push flush =
      .ok ((stage.takeNumber (stage.plan push).first
        push.qos.congestionControl).returnNotify push batch flush) := by
    rw [opens.resume, Stage.frameStep]
    change ((stage.batch push.qos none).startFrame
      ((stage.plan push).header 0) push.msg >>= _) = _
    rw [ran, ok_bind]
    rfl
  rw [Stage.drive_resume opens.running, resumed, ok_bind]
  unfold Stage.returnNotify
  split
  · exact ⟨_, [batch], rfl, rfl, rfl,
      .framed batch (Or.inr ⟨rfl, rfl⟩) content rfl⟩
  · exact ⟨_, [], rfl, rfl, (List.append_nil _).symm,
      .framed batch (Or.inl ⟨rfl, rfl⟩) content rfl⟩

/-- The first batch of a message that is cut, without its content. -/
def Stage.flaggedBatch (stage : Stage) (push : Push) : WriteBatch :=
  { stage.batch push.qos none with drop := stage.dropFlag }

/-- A message that does not fit a frame is cut. -/
theorem Stage.Opens.fragmented (opens : stage.Opens push)
    (long : stage.batchSize < (stage.plan push).frameLen) :
    stage.resume push flush =
      ((stage.flaggedBatch push).startFragments
        ((stage.plan push).header 0) (stage.plan push).fragId push.msg >>=
        fun
        | .failed error batch =>
            return { stage.takeFragId (stage.plan push).fragId with
              booked := some batch }.finish push (.error error)
        | .written batch reader =>
            ((stage.takeFragId (stage.plan push).fragId).takeNumber
              (stage.plan push).first
              push.qos.congestionControl).moveFragment push batch
                (stage.plan push).fragId reader) := by
  rw [opens.resume, Stage.frameStep]
  change ((stage.batch push.qos none).startFrame
    ((stage.plan push).header 0) push.msg >>= _) = _
  rw [opens.startFrame.2 long, ok_bind]
  rfl

theorem Stage.Opens.flagged (opens : stage.Opens push) :
    (stage.flaggedBatch push).Fresh stage.batchSize :=
  opens.fresh.flagged _

theorem length_openHeader (opens : stage.Opens push) :
    (WriteBatch.firstHeader ((stage.plan push).header 0)
      (stage.plan push).fragId push.msg).length =
        (stage.plan push).openLen :=
  WriteBatch.length_firstHeader _ _ opens.bounded

/-- A first header that does not fit fails the push. -/
theorem Stage.Opens.refused (opens : stage.Opens push) (flush : Bool)
    (long : stage.batchSize < (stage.plan push).frameLen)
    (narrow : stage.batchSize < (stage.plan push).openLen) :
    ∃ after emitted, stage.drive flush 1 = .ok after ∧
      after.running = none ∧
      after.committed = stage.committed ++ emitted ∧
      (stage.plan push).Outcome stage after emitted := by
  have spec := (WriteBatch.firstHeader_writes ((stage.plan push).header 0)
    (stage.plan push).fragId opens.bounded (stage.flaggedBatch push).frame).2
  rw [length_openHeader opens, opens.flagged.remaining_eq] at spec
  rcases spec narrow with ⟨frame, failed, _, _⟩
  rw [Stage.drive_resume opens.running, opens.fragmented long,
    WriteBatch.startFragments]
  simp only [failed, ok_bind]
  exact ⟨_, [], rfl, rfl, (List.append_nil _).symm, .refused rfl rfl⟩

/-- A message that does not fit a frame begins with a first fragment. -/
theorem Stage.Opens.begins (opens : stage.Opens push) (flush : Bool)
    (long : stage.batchSize < (stage.plan push).frameLen)
    (fits : (stage.plan push).openLen ≤ stage.batchSize) :
    ∃ after, stage.drive flush 1 = .ok after ∧
      Plan.Going (stage.plan push) stage
        (push.msg.toVec.take ((stage.plan push).offset 0)) [] after := by
  have header := length_openHeader opens
  have remaining := opens.flagged.remaining_eq
  have framed : (Message.mk ((stage.plan push).header 0)
      (.frame .new)).wLen < (stage.plan push).headerLen 0 :=
    WriteBatch.frameWLen_lt _ _
  have unfinished : (stage.plan push).offset 0 < push.msg.len := by
    change stage.batchSize < _ + (vleLen push.msg.len + push.msg.len) at long
    change (stage.plan push).headerLen 0 + vleLen push.msg.len ≤
      stage.batchSize at fits
    change stage.batchSize -
      ((stage.plan push).headerLen 0 + vleLen push.msg.len) < _
    omega
  rcases WriteBatch.startFragments_fits opens.flagged.writable
      opens.bounded (header.trans_le (fits.trans_eq remaining.symm))
      (remaining.trans_lt long) with ⟨batch, reader, ran, carried⟩
  have content := carried.content_eq
  have left := carried.rest_eq
  rw [header, remaining, opens.flagged.content_eq,
    List.nil_append] at content
  rw [header, remaining] at left
  have something : reader.rest.length ≠ 0 := by
    rw [left, List.length_drop, Bytes.length_toVec]
    exact Nat.sub_ne_zero_of_lt unfinished
  rw [Stage.drive_resume opens.running, opens.fragmented long, ran, ok_bind]
  simp only [Stage.moveFragment, carried.placed.remaining_eq, ok_bind,
    something, ne_eq, not_false_eq_true, if_true]
  refine ⟨_, rfl, rfl, rfl, rfl, ?_, ?_, ?_, unfinished⟩
  · refine ⟨reader, carried.placed, left, ?_⟩
    simp only [Stage.suspend, Stage.commit, Stage.takeNumber,
      SeqNumPool.gen_setGen, if_pos]
    rfl
  · refine ⟨[batch], rfl, ?_⟩
    rw [List.map_singleton, content]
    rfl
  · rw [List.flatten_nil, List.append_nil]
    exact List.take_append_drop _ _

end

/-! ## Messages that are cut to their end -/

namespace Plan

variable {plan : Plan} {before stage : Stage} {front : List UInt8}
variable {mores : List (List UInt8)} {flush : Bool}

theorem length_le_flatten (carry : ∀ payload ∈ mores, payload ≠ []) :
    mores.length ≤ mores.flatten.length := by
  induction mores with
  | nil => exact Nat.zero_le _
  | cons payload mores hypothesis =>
      rw [List.forall_mem_cons] at carry
      have positive := List.length_pos_iff.2 carry.1
      have others := hypothesis carry.2
      rw [List.flatten_cons, List.length_append, List.length_cons]
      omega

theorem Going.rest_ne_nil (going : Going plan before front mores stage) :
    plan.rest mores.length ≠ [] := by
  have unfinished := going.unfinished
  apply List.ne_nil_of_length_pos
  rw [length_rest]
  omega

/-- The last fragment completes the cut. -/
theorem Going.cut (going : Going plan before front mores stage)
    (carry : ∀ payload ∈ mores, payload ≠ []) {after : Stage}
    (gone : Gone plan before front mores after) :
    ∃ emitted, after.committed = before.committed ++ emitted ∧
      plan.Outcome before after emitted := by
  rcases gone.committed with ⟨batches, committed, images⟩
  refine ⟨batches, committed, .cut ?_ gone.log⟩
  refine .intro front mores _ going.whole carry going.rest_ne_nil ?_ images
  have total := congrArg List.length going.whole
  have rest := List.length_pos_iff.2 going.rest_ne_nil
  have least := length_le_flatten carry
  rw [List.length_append, List.length_append, Bytes.length_toVec] at total
  omega

/-- With room for a byte in every fragment the message is cut to its end. -/
theorem Going.ends (flush : Bool)
    (roomy : ∀ k, plan.offset k < plan.msg.len →
      plan.headerLen (k + 1) < plan.batchSize)
    (going : Going plan before front mores stage)
    (carry : ∀ payload ∈ mores, payload ≠ []) :
    ∃ rounds after emitted, stage.drive flush rounds = .ok after ∧
      after.running = none ∧
      after.committed = before.committed ++ emitted ∧
      plan.Outcome before after emitted := by
  induction remains : plan.msg.len - plan.offset mores.length
    using Nat.strong_induction_on generalizing mores stage
  rename_i left hypothesis
  have wide := roomy mores.length going.unfinished
  by_cases some_ : plan.offset (mores.length + 1) < plan.msg.len
  · rcases going.more flush (Nat.le_of_lt wide) some_ with
      ⟨next, ran, later⟩
    have payload : (plan.rest mores.length).take
        (plan.room (mores.length + 1)) ≠ [] := by
      rw [Ne, List.take_eq_nil_iff]
      rintro (none_ | nil)
      · exact Nat.sub_ne_zero_of_lt wide none_
      · exact going.rest_ne_nil nil
    have carryLater : ∀ payload ∈ mores ++ [(plan.rest mores.length).take
        (plan.room (mores.length + 1))], payload ≠ [] := by
      rw [List.forall_mem_append, List.forall_mem_singleton]
      exact ⟨carry, payload⟩
    have less : plan.msg.len - plan.offset (mores ++
        [(plan.rest mores.length).take
          (plan.room (mores.length + 1))]).length < left := by
      have unfinished := going.unfinished
      rw [List.length_append, List.length_singleton, offset]
      omega
    rcases hypothesis _ less later carryLater rfl with
      ⟨rounds, after, emitted, ends, outcome⟩
    exact ⟨1 + rounds, after, emitted,
      (Stage.drive_add ran rounds).trans ends, outcome⟩
  · rcases going.last flush (Nat.le_of_lt wide)
      (Nat.le_of_not_lt some_) with ⟨after, ran, gone⟩
    rcases going.cut carry gone with ⟨emitted, committed, outcome⟩
    exact ⟨1, after, emitted, ran, gone.idle, committed, outcome⟩

/-! ## Fragments without room -/

/-- With room for their headers the fragments reach any offset. -/
theorem Going.reaches (going : Going plan before front mores stage)
    (flush : Bool) {more : Nat}
    (fits : ∀ j < more,
      plan.headerLen (mores.length + j + 1) ≤ plan.batchSize)
    (some_ : plan.offset (mores.length + more) < plan.msg.len) :
    ∃ mores' stage', mores'.length = mores.length + more ∧
      stage.drive flush more = .ok stage' ∧
      Going plan before front mores' stage' := by
  induction more with
  | zero => exact ⟨mores, stage, rfl, rfl, going⟩
  | succ more hypothesis =>
      have earlier : plan.offset (mores.length + more) < plan.msg.len :=
        Nat.lt_of_le_of_lt (Nat.le_add_right _ _) some_
      rcases hypothesis (fun j less => fits j (Nat.lt_succ_of_lt less))
        earlier with ⟨mores', stage', length, ran, later⟩
      rcases later.more flush
          (by rw [length]; exact fits more (Nat.lt_succ_self more))
          (by rw [length]; exact some_) with ⟨next, step, goes⟩
      refine ⟨_, next, ?_, (Stage.drive_add ran 1).trans step, goes⟩
      rw [List.length_append, List.length_singleton, length]
      rfl

/-- Every fragment of a cut but the first carries a byte. -/
theorem body_ne_nil {back : List UInt8} (ends : back ≠ [])
    (carry : ∀ payload ∈ mores, payload ≠ []) {k : Nat} {piece : Piece}
    (found : (plan.begun front mores ++ [Piece.mk .last back])[k + 1]? =
      some piece) : piece.body ≠ [] := by
  rw [begun, List.cons_append, List.getElem?_cons_succ] at found
  have member := List.mem_of_getElem? found
  rw [List.mem_append, List.mem_map, List.mem_singleton] at member
  rcases member with ⟨payload, member, rfl⟩ | rfl
  · exact carry payload member
  · exact ends

/-- No outcome has an empty fragment after the first one. -/
theorem Outcome.not_empty {after : Stage} {emitted : List WriteBatch}
    (outcome : plan.Outcome before after emitted) {k : Nat}
    {batch : WriteBatch} (found : emitted[k + 1]? = some batch) :
    batch.content.length ≠ plan.headerLen (k + 1) := by
  cases outcome with
  | framed other place content log =>
      rcases place with ⟨_, rfl⟩ | ⟨_, rfl⟩ <;> cases found
  | refused nothing log =>
      rw [nothing] at found
      cases found
  | cut fragments log =>
      rcases fragments with
        ⟨other, mores, back, whole, carry, ends, few, images⟩
      have image := congrArg (fun contents => contents[k + 1]?) images
      simp only [List.getElem?_map, List.getElem?_mapIdx, found,
        Option.map_some] at image
      rcases Option.map_eq_some_iff.1 image.symm with
        ⟨piece, isPiece, content⟩
      have body := List.length_pos_iff.2 (body_ne_nil ends carry isPiece)
      rw [← content, length_image]
      omega

/-- A push whose next header leaves no room for a byte is not regular. -/
theorem Going.irregular {push : Push} {rounds : Nat}
    (ran : before.drive flush rounds = .ok stage)
    (going : Going (before.plan push) before front mores stage)
    (narrow : (before.plan push).batchSize ≤
      (before.plan push).headerLen (mores.length + 1)) :
    ¬ before.Regular push flush := by
  rintro ⟨total, final, emitted, whole, idle, committed, outcome⟩
  rcases going.running with ⟨reader, _, _, isRunning⟩
  rcases Stage.drive_rest ran isRunning whole idle with ⟨more, rest⟩
  rcases Nat.lt_or_eq_of_le narrow with less | same
  · cases more with
    | zero =>
        cases rest
        rw [isRunning] at idle
        cases idle
    | succ more =>
        rw [going.underflow less] at rest
        cases rest
  · -- the fragment takes no byte, so the push goes on where it was
    have stays : (before.plan push).offset (mores.length + 1) <
        (before.plan push).msg.len := by
      have unfinished := going.unfinished
      rw [offset]
      omega
    rcases going.more flush (Nat.le_of_eq same.symm) stays with
      ⟨next, step, later⟩
    rcases later.running with ⟨_, _, _, isRunning'⟩
    rcases Stage.drive_rest step isRunning' rest idle with ⟨_, ended⟩
    have between : next.BetweenFragments := by
      intro other same
      rw [isRunning'] at same
      cases same
      exact ⟨_, _, _, rfl⟩
    have kept := drive_extends between ended
    rcases later.committed with ⟨batches, already, images⟩
    rw [already, committed, List.prefix_append_right_inj] at kept
    rcases kept with ⟨others, rfl⟩
    rw [begun_concat, List.mapIdx_concat, length_begun] at images
    rcases List.map_eq_append_iff.1 images with
      ⟨fronts, backs, rfl, front', back⟩
    rcases List.map_eq_singleton_iff.1 back with ⟨batch, rfl, content⟩
    have count := congrArg List.length front'
    rw [List.length_map, List.length_mapIdx, length_begun] at count
    have found : ((fronts ++ [batch]) ++ others)[mores.length + 1]? =
        some batch := by
      rw [← count]
      simp
    apply outcome.not_empty found
    rw [content, length_image, room, same, Nat.sub_self, List.take_zero,
      List.length_nil, Nat.add_zero]

theorem offset_le (plan : Plan) {j k : Nat} (le : j ≤ k) :
    plan.offset j ≤ plan.offset k := by
  induction le with
  | refl => exact Nat.le_refl _
  | step le hypothesis =>
      exact Nat.le_trans hypothesis (Nat.le_add_right _ _)

end Plan

section

variable {stage : Stage} {push : Push} {flush : Bool}

/-- A regular push has room for a byte after every header it needs. -/
theorem roomy_of_regular (opens : stage.Opens push)
    (regular : stage.Regular push flush) : (stage.plan push).Roomy := by
  by_cases framed : (stage.plan push).frameLen ≤ stage.batchSize
  · exact Or.inl framed
  by_cases refused : stage.batchSize < (stage.plan push).openLen
  · exact Or.inr (Or.inl refused)
  refine Or.inr (Or.inr ?_)
  rcases opens.begins flush (Nat.lt_of_not_le framed)
    (Nat.le_of_not_lt refused) with ⟨after, begun, going⟩
  intro k
  induction k using Nat.strong_induction_on with
  | h k hypothesis =>
      intro some_
      by_contra narrow
      have fits : ∀ j < k, (stage.plan push).headerLen
          (([] : List (List UInt8)).length + j + 1) ≤
            (stage.plan push).batchSize := by
        intro j less
        rw [List.length_nil, Nat.zero_add]
        exact Nat.le_of_lt (hypothesis j less
          (Nat.lt_of_le_of_lt (Plan.offset_le _ (Nat.le_of_lt less))
            some_))
      rcases going.reaches flush fits
          (by rwa [List.length_nil, Nat.zero_add]) with
        ⟨mores, reached, length, ran, later⟩
      rw [List.length_nil, Nat.zero_add] at length
      refine later.irregular ((Stage.drive_add begun k).trans ran) ?_
        regular
      rw [length]
      exact Nat.le_of_not_lt narrow

/--
A push that gets a batch whenever it needs one ends, without a fault and with
a byte of the message in every fragment after the first, exactly when the
message fits a frame, its first header does not fit a batch, or every further
header that it needs leaves room for a byte.
-/
theorem regular_iff (opens : stage.Opens push) (flush : Bool) :
    stage.Regular push flush ↔ (stage.plan push).Roomy := by
  constructor
  · exact roomy_of_regular opens
  · intro roomy
    by_cases framed : (stage.plan push).frameLen ≤ stage.batchSize
    · rcases opens.framed flush framed with
        ⟨after, emitted, framed⟩
      exact ⟨1, after, emitted, framed⟩
    have long := Nat.lt_of_not_le framed
    by_cases refused : stage.batchSize < (stage.plan push).openLen
    · rcases opens.refused flush long refused with
        ⟨after, emitted, refused⟩
      exact ⟨1, after, emitted, refused⟩
    rcases opens.begins flush long
      (Nat.le_of_not_lt refused) with ⟨next, begun, going⟩
    have wide := (roomy.resolve_left framed).resolve_left refused
    rcases going.ends flush wide (by simp) with
      ⟨rounds, after, emitted, ran, ended⟩
    exact ⟨1 + rounds, after, emitted,
      (Stage.drive_add begun rounds).trans ran, ended⟩

end

/-- A message of `len` bytes. -/
def sevens (len : Nat) : Bytes :=
  .single (.ofBuf (List.replicate len 7))

/-- A push of a message after `count` batches of its kind. -/
def opening (batchSize count len : Nat) : Stage :=
  { Stage.new batchSize with
    pool := ⟨.new count, .new count, .new 0⟩
    running := some ⟨sevens len, .DEFAULT, .fresh⟩ }

theorem opening_opens (batchSize count : Nat) {len : Nat}
    (bounded : (sevens len).len < 2 ^ 64) :
    (opening batchSize count len).Opens ⟨sevens len, .DEFAULT, .fresh⟩ :=
  ⟨rfl, rfl, Or.inr rfl, bounded⟩

/-- Every header leaves room for a byte in a batch of 19 bytes. -/
theorem regular_iff_wide :
    (opening 19 0 40).Regular ⟨sevens 40, .DEFAULT, .fresh⟩ false := by
  apply (regular_iff (opening_opens 19 0 (by decide)) false).2
  refine Or.inr (Or.inr fun k _ => ?_)
  exact Nat.lt_of_le_of_lt (WriteBatch.fragmentWLen_le _ _) (by decide)

/--
With batches of five bytes the header with the sequence number `127` leaves
no room, as the message length takes the fifth byte, and the headers from
`128` on take all five bytes: the further fragments are empty.
-/
theorem empty_fragments :
    (opening 5 126 2).Opens ⟨sevens 2, .DEFAULT, .fresh⟩ ∧
      (∃ after, (opening 5 126 2).drive false 3 = .ok after ∧
        after.running.isSome ∧
        after.committed.map WriteBatch.content =
          [⟨.first, [2]⟩, ⟨.more, []⟩, ⟨.more, []⟩].mapIdx
            ((opening 5 126 2).plan ⟨sevens 2, .DEFAULT, .fresh⟩).image) ∧
      ¬ (opening 5 126 2).Regular ⟨sevens 2, .DEFAULT, .fresh⟩ false := by
  have bounded : (sevens 2).len < 2 ^ 64 := by decide
  have opens := opening_opens 5 126 bounded
  refine ⟨opens, ?_, ?_⟩
  · have passed : ((opening 5 126 2).drive false 3).toOption.any
        (fun after => after.running.isSome &&
          decide (after.committed.map WriteBatch.content =
            [⟨.first, [2]⟩, ⟨.more, []⟩, ⟨.more, []⟩].mapIdx
              ((opening 5 126 2).plan
                ⟨sevens 2, .DEFAULT, .fresh⟩).image)) = true := by
      decide +kernel
    cases ran : (opening 5 126 2).drive false 3 with
    | error fault =>
        rw [ran] at passed
        cases passed
    | ok after =>
        rw [ran] at passed
        rcases Bool.and_eq_true_iff.1 passed with ⟨unfinished, images⟩
        exact ⟨after, rfl, unfinished, of_decide_eq_true images⟩
  · intro regular
    rcases roomy_of_regular opens regular with framed | narrow | roomy
    · exact absurd framed (by decide)
    · exact absurd narrow (by decide)
    · exact absurd (roomy 0 (by decide)) (by decide)

end Tx
end Thubo
