import Thubo.Lib.Merge
import Thubo.Lib.Runs
import Thubo.Pipeline.Feed
import Thubo.Pipeline.Progress
import Thubo.Pipeline.RoundTrip

/-!
# What a failed encoding does to the messages that follow

A first header that does not fit is not undone: the part of it that did fit
stays in the booked batch, and the next push appends its message to it.  Only
a batch without any room is left as it was.  As long as no push fails so, the
receiver gets every message whose push returned `Ok`, whatever the size of
the batches.
-/

namespace Thubo
namespace Tx

/-! ## What a failed encoding leaves -/

/-- The bytes of the pending batch, if there is one. -/
def Stage.pending (stage : Stage) : List UInt8 :=
  match stage.booked with
  | some batch => batch.content
  | none => []

/-- The push has failed to encode its message. -/
def Stage.Failed (stage : Stage) (push : Push) (after : Stage) : Prop :=
  after.log =
    stage.log ++ [⟨push.msg, push.qos, .error .encodingFailed⟩]

/-- A failed encoding leaves the pending batch as it was. -/
def Stage.Unharmed (stage : Stage) (push : Push) (after : Stage) : Prop :=
  stage.Failed push after → after.pending = stage.pending

/-- What the push writes fits, or a batch has no room at all. -/
def Stage.Fitting (stage : Stage) : Prop :=
  stage.batchSize = 0 ∨ stage.roomy = true

instance (stage : Stage) : Decidable stage.Fitting :=
  inferInstanceAs (Decidable (_ ∨ _))

section

variable {p : Priority} {stage after : Stage} {push : Push}
variable {parts : List (List Share)} {current : List Share} {flush : Bool}

/-- A header that does not fit fails the push and stays in its batch. -/
theorem frameStep_fails {batch : WriteBatch} {batchSize : Nat}
    (writable : batch.Writable batchSize)
    (bounded : push.msg.len < 2 ^ 64)
    (narrow : stage.takes push batch = false) (flush : Bool) :
    ∃ after left extra, stage.frameStep push batch flush = .ok after ∧
      stage.Failed push after ∧ after.booked = some left ∧
      left.content = batch.content ++ extra ∧
      (0 < batch.frame.remaining → extra ≠ []) := by
  have spec := (batch.startFrame_spec
    (.new push.qos (stage.pool.gen push.qos.congestionControl).next)
      bounded).2
  rw [WriteBatch.length_frame _ bounded] at spec
  rw [Stage.takes, Bool.or_eq_false_iff, decide_eq_false_iff_not,
    decide_eq_false_iff_not, Nat.not_le, Nat.not_le] at narrow
  have flagged := writable.flagged
    (stage.takeFragId stage.pool.fragId.next).dropFlag
  have header := narrow.2
  rw [← WriteBatch.length_firstHeader _ _ bounded] at header
  rcases WriteBatch.startFragments_fails _ _ bounded
      (show ({ batch with drop :=
        (stage.takeFragId stage.pool.fragId.next).dropFlag } :
          WriteBatch).frame.remaining < _ from header) with
    ⟨left, extra, failed, leaves⟩
  unfold Stage.frameStep
  dsimp only
  rw [spec narrow.1, ok_bind]
  simp only [failed, ok_bind]
  exact ⟨_, left, extra, rfl, rfl, rfl, leaves.content_eq flagged,
    leaves.grows⟩

/-- The content of the batch of a push is what is pending. -/
theorem content_batch (stage : Stage) (qos : QoS) (drop : Option Nat) :
    (stage.batch qos drop).content = stage.pending := by
  unfold Stage.pending
  cases isBooked : stage.booked with
  | none => exact (refilled_fresh isBooked qos drop).1.content_eq
  | some batch => rw [Stage.batch, isBooked]

theorem Traced.writable (traced : Traced p stage parts current)
    (qos : QoS) (drop : Option Nat) :
    (stage.batch qos drop).Writable stage.batchSize := by
  cases isBooked : stage.booked with
  | none => exact (refilled_fresh isBooked qos drop).1.writable
  | some batch =>
      rw [Stage.batch, isBooked]
      exact (traced.booked batch isBooked).writable

/-- What a push without room for its header leaves in an empty batch. -/
structure Spoils (stage : Stage) (push : Push) (after : Stage) : Prop where
  failed : stage.Failed push after
  before : stage.pending = []
  after : 0 < stage.batchSize → after.pending ≠ []

theorem frameStep_spoils (traced : Traced p stage parts current)
    (bounded : push.msg.len < 2 ^ 64) (nothing : stage.pending = [])
    (narrow : stage.takes push (stage.batch push.qos none) = false)
    (stepped : stage.frameStep push (stage.batch push.qos none) flush =
      .ok after) : Spoils stage push after := by
  have writable := traced.writable push.qos none
  rcases frameStep_fails writable bounded narrow flush with
    ⟨result, left, extra, ran, failed, isBooked, content, grows⟩
  rw [ran] at stepped
  cases stepped
  rw [content_batch, nothing, List.nil_append] at content
  refine ⟨failed, nothing, fun some_ => ?_⟩
  simp only [Stage.pending, isBooked, content]
  apply grows
  rw [writable.remaining_eq, content_batch, nothing]
  exact some_

/-- A push goes wrong only where it has no room for a header. -/
theorem resume_spoils (traced : Traced p stage parts current)
    (small : stage.batchSize ≤ 65535)
    (isRunning : stage.running = some push)
    (narrow : stage.roomy = false)
    (resumed : stage.resume push flush = .ok after) :
    Spoils stage push after := by
  rcases traced.running push isRunning with ⟨_, bounded, goesOn⟩
  simp only [Stage.roomy, isRunning] at narrow
  unfold Stage.resume at resumed
  cases point : push.point with
  | fragments seqNum fragId reader =>
      rw [point] at goesOn narrow resumed
      rcases goesOn with ⟨free, placed, _⟩
      have fresh := (refilled_fresh free push.qos stage.dropFlag).1
      simp only [Stage.fragmentStep] at resumed
      rcases WriteBatch.continueFragments_cases fresh.writable
          (.new push.qos seqNum) fragId placed with
        ⟨fault, failed⟩ | ⟨kind, taken, next, rest, _, carried⟩
      · rw [failed] at resumed
        cases resumed
      · have room := carried.room
        rw [Message.length_bytes, WriteBatch.wLen_fragment] at room
        exact absurd room (of_decide_eq_false narrow)
  | fresh =>
      rw [point] at goesOn narrow resumed
      have nothing : stage.pending = [] := by
        rw [Stage.pending, goesOn.1]
      exact frameStep_spoils traced bounded nothing narrow resumed
  | start =>
      rw [point] at narrow resumed
      rw [Bool.or_eq_false_iff, Bool.not_eq_false'] at narrow
      simp only [narrow.1, if_true] at resumed
      have nothing := ((traced.writable push.qos none).isEmpty_iff small).1
        narrow.1
      rw [content_batch] at nothing
      exact frameStep_spoils traced bounded nothing narrow.2 resumed

/-- A batch without any room stays empty. -/
theorem Traced.pending_nil (traced : Traced p stage parts current)
    (noRoom : stage.batchSize = 0) : stage.pending = [] := by
  rw [← content_batch stage .DEFAULT none]
  have le := (traced.writable .DEFAULT none).length_le
  rw [noRoom] at le
  exact List.length_eq_zero_iff.1 (Nat.le_zero.1 le)

/-- A step of a push leaves the pending batch alone when it fails. -/
theorem unharmed_iff (traced : Traced p stage parts current)
    (small : stage.batchSize ≤ 65535)
    (isRunning : stage.running = some push)
    (resumed : stage.resume push flush = .ok after) :
    stage.Unharmed push after ↔ stage.Fitting := by
  cases narrow : stage.roomy with
  | true =>
      rcases resume_wrote traced isRunning narrow flush with
        ⟨result, ran, wrote⟩
      rw [resumed] at ran
      cases ran
      constructor
      · intro _
        exact Or.inr narrow
      · intro _ failed
        exact absurd failed wrote.not_failed
  | false =>
      have spoils := resume_spoils traced small isRunning narrow resumed
      constructor
      · intro unharmed
        left
        by_contra some_
        apply spoils.after (Nat.pos_of_ne_zero some_)
        rw [unharmed spoils.failed, spoils.before]
      · rintro (noRoom | roomy)
        · intro _
          have stepped : stage.step (.resume flush) = .ok (some after) := by
            simp only [Stage.step, isRunning, resumed]
            rfl
          have at_ : Stage.Action.At p (.resume flush) := trivial
          rcases step_traced traced small at_ stepped with
            ⟨parts', current', later⟩
          rcases step_resumed traced stepped with ⟨_, _, did⟩
          rw [later.pending_nil (did.size_eq.trans noRoom), spoils.before]
        · rw [narrow] at roomy
          cases roomy

/-- A batch without any room has none for a header. -/
theorem Traced.not_roomy (traced : Traced p stage parts current)
    (small : stage.batchSize ≤ 65535) (noRoom : stage.batchSize = 0)
    (isRunning : stage.running = some push) : stage.roomy = false := by
  have none_ : ∀ drop, (stage.batch push.qos drop).frame.remaining = 0 := by
    intro drop
    rw [(traced.writable push.qos drop).remaining_eq, noRoom, Nat.zero_sub]
  have header : ∀ header fragId,
      0 < WriteBatch.fragmentWLen header fragId := by
    intro header fragId
    exact Nat.add_pos_right _ (Nat.add_pos_left Nat.one_pos _)
  have takes : stage.takes push (stage.batch push.qos none) = false := by
    rw [Stage.takes, none_, Bool.or_eq_false_iff, decide_eq_false_iff_not,
      decide_eq_false_iff_not]
    constructor
    · exact Nat.not_le_of_lt (Nat.add_pos_left
        (Nat.add_pos_right _ (Nat.succ_pos 0)) _)
    · exact Nat.not_le_of_lt (Nat.add_pos_left (header _ _) _)
  have empty : (stage.batch push.qos none).isEmpty = true := by
    rw [(traced.writable push.qos none).isEmpty_iff small, content_batch]
    exact traced.pending_nil noRoom
  simp only [Stage.roomy, isRunning]
  cases push.point with
  | fragments seqNum fragId reader =>
      dsimp only
      rw [none_, decide_eq_false_iff_not]
      exact Nat.not_le_of_lt (header _ _)
  | fresh => exact takes
  | start =>
      dsimp only
      rw [empty, takes]
      rfl

end

/-! ## Runs -/

/-- One step of a priority; nothing when it is not possible. -/
def Stage.advance (stage : Stage) (action : Stage.Action) : Option Stage :=
  match stage.step action with
  | .ok (some after) => some after
  | _ => none

theorem Stage.advance_eq {stage after : Stage} {action : Stage.Action}
    (advanced : stage.advance action = some after) :
    stage.step action = .ok (some after) := by
  unfold Stage.advance at advanced
  split at advanced
  · rename_i stepped
    cases advanced
    exact stepped
  · cases advanced

/-- A push writes only what fits. -/
def Stage.Fits (stage : Stage) : Stage.Action → Prop
  | .resume _ => stage.Fitting
  | _ => True

instance : DecidableRel Stage.Fits := fun stage action =>
  match action with
  | .resume _ => inferInstanceAs (Decidable stage.Fitting)
  | .begin .. | .abandon _ | .flush => .isTrue trivial

/-- What a priority keeps as long as every push writes only what fits. -/
structure Usable (p : Priority) (batchSize : Nat) (stage : Stage) :
    Prop where
  size : stage.batchSize = batchSize
  traced : ∃ parts current, Traced p stage parts current
  described : 0 < batchSize → Described p stage
  nothing : batchSize = 0 → accepted stage.log = []

section

variable {p : Priority} {batchSize : Nat} {stage after : Stage}

theorem usable_new (p : Priority) (batchSize : Nat) :
    Usable p batchSize (.new batchSize) where
  size := rfl
  traced := ⟨[], [], traced_new p batchSize⟩
  described _ := described_new p batchSize
  nothing _ := rfl

/-- Without any room no message is accepted. -/
theorem Usable.step_nothing (usable : Usable p batchSize stage)
    (small : batchSize ≤ 65535) (noRoom : batchSize = 0)
    {action : Stage.Action}
    (stepped : stage.step action = .ok (some after)) :
    accepted after.log = [] := by
  have before := usable.nothing noRoom
  cases action with
  | begin msg qos =>
      rcases step_begin stepped with ⟨_, rfl⟩
      exact before
  | resume flush =>
      rcases usable.traced with ⟨parts, current, traced⟩
      rcases step_resume stepped with ⟨push, isRunning, resumed⟩
      have size := usable.size
      have narrow := traced.not_roomy (size.trans_le small)
        (size.trans noRoom) isRunning
      have spoils := resume_spoils traced (size.trans_le small) isRunning
        narrow resumed
      rw [spoils.failed, accepted_error, before]
  | abandon error =>
      rcases step_abandon stepped with ⟨push, _, _, rfl⟩
      exact (accepted_error _ _ _ _).trans before
  | flush =>
      rcases step_flush stepped with ⟨batch, _, _, rfl⟩
      exact before

/-- A step that writes only what fits keeps the priority usable. -/
theorem Usable.step (usable : Usable p batchSize stage)
    (small : batchSize ≤ 65535) {action : Stage.Action} (at_ : action.At p)
    (fits : stage.Fits action)
    (stepped : stage.step action = .ok (some after)) :
    Usable p batchSize after := by
  have size := usable.size
  rcases usable.traced with ⟨parts, current, traced⟩
  constructor
  · exact (step_batchSize traced stepped).trans size
  · exact step_traced traced (size.trans_le small) at_ stepped
  · intro some_
    have roomy : ∀ flush, action = .resume flush → stage.roomy = true := by
      rintro flush rfl
      apply Or.resolve_left fits
      rw [size]
      exact Nat.pos_iff_ne_zero.1 some_
    rcases step_described_of_roomy (usable.described some_)
        (size.trans_le small) at_ roomy with ⟨result, ran, kept⟩
    rw [stepped] at ran
    cases ran
    exact (kept after rfl).2
  · intro noRoom
    exact usable.step_nothing small noRoom stepped

theorem usable_of_guarded (small : batchSize ≤ 65535)
    {actions : List Stage.Action} (at_ : ∀ action ∈ actions, action.At p)
    (fits : Runs.Guarded Stage.advance Stage.Fits (.new batchSize) actions)
    (ran : Runs.run Stage.advance (.new batchSize) actions = some stage) :
    Usable p batchSize stage :=
  Runs.invariant
    (fun _ _ _ (usable : Usable p batchSize _) good advanced =>
      usable.step small good.1 good.2 (Stage.advance_eq advanced))
    (usable_new p batchSize) (fits.with_all at_) ran

end

/-! ## What the receiver gets -/

/--
The receiver, fed with the batches of all priorities in any order that keeps
the one of each, returns the accepted messages.
-/
def Delivered (stages : Priority → Stage) : Prop :=
  ∀ (out : List WriteBatch) (fragMaxSize capacity : Nat)
    (calls : List Rx.Pipeline.Call),
    (∀ p, (out.filter fun batch => batch.qos.priority = p) =
      (stages p).committed) →
    Rx.Pipeline.pushed calls = out.map WriteBatch.content →
    (∀ p, ∀ message ∈ accepted (stages p).log,
      (encodeMessage message).length ≤ fragMaxSize) →
    Rx.Pipeline.NeverFull fragMaxSize (.new capacity) calls →
    ∀ pulls, (Priority.ALL.map fun p =>
        (accepted (stages p).log).length).sum ≤ pulls →
      ∃ got receiver,
        Rx.Pipeline.serve fragMaxSize (.new capacity)
            (calls ++ List.replicate pulls .tryPull) =
          .ok (got, receiver) ∧
        ∀ p, Rx.returned p got = accepted (stages p).log

/-- The batches that have been committed carry what has been emitted. -/
theorem exists_emitted {stages : Priority → Stage} {out : List WriteBatch}
    {sent : Priority → List Sent}
    (carried : ∀ p, List.Forall₂ (Carries (stages p).batchSize)
      (stages p).committed (sent p))
    (all : ∀ p, (out.filter fun batch => batch.qos.priority = p) =
      (stages p).committed) :
    ∃ fed, out.map WriteBatch.content = fed.map Sent.image ∧
      ∀ p, Rx.batchesAt p fed = sent p := by
  have related : ∀ p, List.Forall₂ Written (stages p).committed
      (sent p) := fun p =>
    (carried p).imp fun _ _ carries =>
      ⟨carries.content_eq, carries.priority_eq⟩
  have some_ : ∀ p, (out.filter fun batch =>
      batch.qos.priority = p).Sublist (stages p).committed := by
    intro p
    rw [all p]
  rcases Merge.exists_related (fun _ _ written => written.2) related
      some_ with ⟨fed, written, selected⟩
  refine ⟨fed, ?_, fun p => (selected p).eq_of_length ?_⟩
  · rw [← List.forall₂_eq_eq_eq, List.forall₂_map_left_iff,
      List.forall₂_map_right_iff]
    exact written.imp fun _ _ written => written.1
  · have handed := (Merge.forall₂_filter (fun _ _ written => written.2)
      written p).length_eq
    rw [← handed, all p]
    exact (carried p).length_eq

/-- Priorities that are described and have nothing pending are delivered. -/
theorem delivered_of_described {stages : Priority → Stage}
    (described : ∀ p, Described p (stages p))
    (flushed : ∀ p, (stages p).booked = none) : Delivered stages := by
  intro out fragMaxSize capacity calls all fedCalls limit never pulls
    enough
  choose sent counters messages unfinished describes using described
  rcases exists_emitted (fun p => (describes p).carried) all with
    ⟨fed, contents, same⟩
  have emits : ∀ p, Emits p (Rx.batchesAt p fed) (counters p) (messages p)
      (unfinished p) := by
    intro p
    rw [same p]
    exact (describes p).emits
  have log : ∀ p, accepted (stages p).log = messages p := fun p =>
    ((describes p).unbooked (flushed p)).2
  simp only [log] at limit enough ⊢
  rcases Rx.serve_complete (fedCalls.trans contents) emits limit never with
    ⟨got, receiver, pending, served, complete⟩
  exact Rx.serve_all served complete enough

/--
In every run, with any batch size, in which every push writes only what fits
or a batch has no room at all: a failed encoding leaves the pending batch as
it was exactly when the push that fails meets this condition, too, and the
receiver gets every message whose push returned `Ok`.
-/
theorem usable_of_run {batchSize : Nat} (small : batchSize ≤ 65535)
    {actions : Priority → List Stage.Action}
    (at_ : ∀ p, ∀ action ∈ actions p, action.At p)
    (fits : ∀ p, Runs.Guarded Stage.advance Stage.Fits (.new batchSize)
      (actions p))
    {stages : Priority → Stage}
    (ran : ∀ p, Runs.run Stage.advance (.new batchSize) (actions p) =
      some (stages p)) :
    (∀ p push flush after, (stages p).running = some push →
      (stages p).resume push flush = .ok after →
      ((stages p).Unharmed push after ↔ (stages p).Fitting)) ∧
    (batchSize = 0 → ∀ p, accepted (stages p).log = []) ∧
    (0 < batchSize → (∀ p, (stages p).booked = none) →
      Delivered stages) := by
  have usable : ∀ p, Usable p batchSize (stages p) := fun p =>
    usable_of_guarded small (at_ p) (fits p) (ran p)
  refine ⟨?_, fun noRoom p => (usable p).nothing noRoom, ?_⟩
  · intro p push flush after isRunning resumed
    rcases (usable p).traced with ⟨parts, current, traced⟩
    exact unharmed_iff traced ((usable p).size.trans_le small) isRunning
      resumed
  · intro some_ flushed
    exact delivered_of_described (fun p => (usable p).described some_)
      flushed

/-- An empty message is pushed at the medium priority and flushed. -/
def emptyMessage : Priority → List Stage.Action
  | .medium => [.begin Bytes.new .DEFAULT, .resume false, .flush]
  | _ => []

/-- A batch of five bytes has room for an empty message. -/
theorem usable_of_run_empty :
    ∃ stages : Priority → Stage,
      (∀ p, Runs.run Stage.advance (.new 5) (emptyMessage p) =
        some (stages p)) ∧
      accepted (stages .medium).log = [[]] ∧ Delivered stages := by
  have passed : ∀ p, (Runs.run Stage.advance (.new 5)
      (emptyMessage p)).any (fun stage => stage.booked.isNone &&
        decide (accepted stage.log =
          if p = .medium then [[]] else [])) = true := by
    intro p
    cases p <;> decide +kernel
  choose stages ran found using fun p => Runs.exists_of_any (passed p)
  simp only [Bool.and_eq_true, Option.isNone_iff_eq_none,
    decide_eq_true_iff] at found
  have at_ : ∀ p, ∀ action ∈ emptyMessage p, action.At p := by
    intro p
    cases p <;> simp [emptyMessage, Stage.Action.At, QoS.DEFAULT]
    decide
  have fits : ∀ p, Runs.Guarded Stage.advance Stage.Fits (.new 5)
      (emptyMessage p) := by
    intro p
    cases p <;> decide +kernel
  exact ⟨stages, ran, (found .medium).2,
    (usable_of_run (by decide) at_ fits ran).2.2 (by decide)
      fun p => (found p).1⟩

/-- A message whose length takes two bytes. -/
def longMessage : Bytes :=
  Bytes.single (Chunk.ofBuf (List.replicate 200 7))

/--
A push of a message whose first header takes six bytes leaves four of them in
a batch of five.  The empty message pushed next is appended to them, its push
returns `Ok`, and the receiver returns nothing.
-/
theorem refused_header_stays :
    ∃ before after final,
      Runs.run Stage.advance (.new 5)
          [.begin longMessage .DEFAULT] = some before ∧
        before.resume ⟨longMessage, .DEFAULT, .start⟩ false = .ok after ∧
        before.Failed ⟨longMessage, .DEFAULT, .start⟩ after ∧
        before.pending = [] ∧ after.pending ≠ [] ∧
        Runs.run Stage.advance after
            [.begin Bytes.new .DEFAULT, .resume false, .flush] =
          some final ∧
        accepted final.log = [[]] ∧
        final.committed.map WriteBatch.content = [[1, 1, 1, 1, 0]] ∧
        (Rx.Pipeline.serve 100 (.new 4)
          [.push (Chunk.ofBuf [1, 1, 1, 1, 0]) .deadline, .tryPull]).map
            (fun result => result.1.map fun (t, _) => t.toVec) =
              .ok [] := by
  have begun : Runs.run Stage.advance (.new 5)
      [.begin longMessage .DEFAULT] =
        some { Stage.new 5 with
          running := some ⟨longMessage, .DEFAULT, .start⟩ } :=
    rfl
  have passed : (({ Stage.new 5 with
      running := some ⟨longMessage, .DEFAULT, .start⟩ } : Stage).resume
        ⟨longMessage, .DEFAULT, .start⟩ false).toOption.any (fun after =>
          (Runs.run Stage.advance after
            [.begin Bytes.new .DEFAULT, .resume false, .flush]).any
              fun final => decide (accepted final.log = [[]] ∧
                final.committed.map WriteBatch.content =
                  [[1, 1, 1, 1, 0]])) = true := by
    decide +kernel
  cases resumed : ({ Stage.new 5 with
      running := some ⟨longMessage, .DEFAULT, .start⟩ } : Stage).resume
        ⟨longMessage, .DEFAULT, .start⟩ false with
  | error fault =>
      rw [resumed] at passed
      cases passed
  | ok after =>
      rw [resumed] at passed
      rcases Runs.exists_of_any passed with ⟨final, ran, found⟩
      rcases of_decide_eq_true found with ⟨log, committed⟩
      have at_ : Stage.Action.At .medium (.begin longMessage .DEFAULT) :=
        ⟨by decide, by decide +kernel⟩
      rcases step_traced (traced_new .medium 5) (by decide) at_
          (Stage.advance_eq begun) with ⟨parts, current, traced⟩
      have spoils := resume_spoils traced (by decide) rfl
        (by decide +kernel) resumed
      exact ⟨_, after, final, begun, resumed, spoils.failed,
        spoils.before, spoils.after (by decide), ran, log, committed,
        by decide +kernel⟩

end Tx
end Thubo
