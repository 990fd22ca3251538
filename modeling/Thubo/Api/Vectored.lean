import Thubo.Api.WriteTask

/-!
# Vectored writes

A writer takes any part of what it is offered, so one call may end inside a
slice, between two slices or after several of them.  The loop offers what is
left until nothing is, and a call that takes nothing ends it with an error.
-/

namespace Thubo
namespace Vectored

open WriteTask (advanceSlices flatten_advanceSlices)

/-- What a call of the writer does. -/
inductive WriteOutcome where
  /-- It accepts so many bytes, or all there are. -/
  | accepted (most : Nat)
  | failed
deriving DecidableEq, Repr

inductive IoError where
  | writeZero
  /-- The error of the writer. -/
  | writer
deriving DecidableEq, Repr

/-- What has become of the loop. -/
inductive Returned where
  | ok (written : Nat)
  | err (error : IoError)
  /-- The writer has not answered the last call yet. -/
  | pending
deriving DecidableEq, Repr

/-- The loop over the calls, with the bytes the writer accepts. -/
def writeLoop : List (List UInt8) → Nat → List WriteOutcome →
    Returned × List UInt8
  | [], written, _ => (.ok written, [])
  | _ :: _, _, [] => (.pending, [])
  | _ :: _, _, .failed :: _ => (.err .writer, [])
  | slice :: rest, written, .accepted most :: outcomes =>
      let slices := slice :: rest
      let n := min most slices.flatten.length
      if n = 0 then
        (.err .writeZero, [])
      else
        let (returned, accepted) :=
          writeLoop (advanceSlices slices n) (written + n) outcomes
        (returned, slices.flatten.take n ++ accepted)

/-- Write all the slices, looping over partial writes. -/
def writeAllVectored (slices : List (List UInt8))
    (outcomes : List WriteOutcome) : Returned × List UInt8 :=
  writeLoop slices 0 outcomes

/-- The call accepts a byte when there is one. -/
def WriteOutcome.Progresses : WriteOutcome → Prop
  | .accepted most => most ≠ 0
  | .failed => False

/-! ## One call -/

/-- Advancing leaves no slice empty. -/
theorem advanceSlices_ne_nil {slices : List (List UInt8)}
    (solid : ∀ slice ∈ slices, slice ≠ []) (n : Nat) :
    ∀ slice ∈ advanceSlices slices n, slice ≠ [] := by
  induction slices generalizing n with
  | nil => exact solid
  | cons slice rest hypothesis =>
      rw [List.forall_mem_cons] at solid
      rw [advanceSlices]
      split
      · exact hypothesis solid.2 _
      · rename_i inside
        rw [List.forall_mem_cons]
        refine ⟨?_, solid.2⟩
        rw [ne_eq, List.drop_eq_nil_iff]
        exact inside

/-- A call ends the loop, or the loop goes on with what is left. -/
inductive Called (slices : List (List UInt8)) (written : Nat)
    (outcomes : List WriteOutcome) : Returned × List UInt8 → Prop where
  | failed (error : IoError) : Called slices written outcomes (.err error, [])
  | goesOn (n : Nat) (positive : n ≠ 0) (bounded : n ≤ slices.flatten.length) :
      Called slices written outcomes
        ((writeLoop (advanceSlices slices n) (written + n) outcomes).1,
          slices.flatten.take n ++
            (writeLoop (advanceSlices slices n) (written + n) outcomes).2)

theorem writeLoop_called (slice : List UInt8) (rest : List (List UInt8))
    (written : Nat) (outcome : WriteOutcome) (outcomes : List WriteOutcome) :
    Called (slice :: rest) written outcomes
      (writeLoop (slice :: rest) written (outcome :: outcomes)) := by
  cases outcome with
  | failed => exact .failed .writer
  | accepted most =>
      rw [writeLoop]
      by_cases zero : min most (slice :: rest).flatten.length = 0
      · simp only [zero, if_true]
        exact .failed .writeZero
      · simp only [zero, if_false]
        exact .goesOn _ zero (Nat.min_le_right ..)

/-- A call that accepts a byte does not end the loop. -/
theorem writeLoop_ne_err {slice : List UInt8} {rest : List (List UInt8)}
    (solid : slice ≠ []) (written : Nat) {outcome : WriteOutcome}
    (progresses : outcome.Progresses) (outcomes : List WriteOutcome)
    (error : IoError) :
    writeLoop (slice :: rest) written (outcome :: outcomes) ≠
      (.err error, []) := by
  cases outcome with
  | failed => exact progresses.elim
  | accepted most =>
      have positive : most ≠ 0 := progresses
      have first := List.length_pos_iff.2 solid
      have some_ : min most (slice :: rest).flatten.length ≠ 0 := by
        rw [List.flatten_cons, List.length_append]
        omega
      intro same
      have nothing := congrArg (fun result => result.2.length) same
      rw [writeLoop] at nothing
      simp only [if_neg some_, List.length_append, List.length_take,
        Nat.min_eq_left (Nat.min_le_right _ _), List.length_nil] at nothing
      omega

/-! ## The whole loop -/

/-- The bytes accepted are the first ones, and all of them at the end. -/
structure Written (slices : List (List UInt8)) (written : Nat)
    (result : Returned × List UInt8) : Prop where
  ok : ∀ n, result.1 = .ok n →
    result.2 = slices.flatten ∧ n = written + slices.flatten.length
  begins : result.2 <+: slices.flatten

/-- Nothing has been accepted and the loop is not through. -/
theorem Written.nothing {slices : List (List UInt8)} {written : Nat}
    {returned : Returned} (unfinished : ∀ n, returned ≠ .ok n) :
    Written slices written (returned, []) where
  ok n same := absurd same (unfinished n)
  begins := List.nil_prefix

theorem Written.nil (written : Nat) :
    Written [] written (.ok written, []) where
  ok n same := by
    cases same
    exact ⟨rfl, rfl⟩
  begins := List.nil_prefix

/-- The bytes of a call come before those of the calls that follow. -/
theorem Written.called {slices : List (List UInt8)} {written n : Nat}
    {result : Returned × List UInt8} (bounded : n ≤ slices.flatten.length)
    (later : Written (advanceSlices slices n) (written + n) result) :
    Written slices written
      (result.1, slices.flatten.take n ++ result.2) := by
  have left := flatten_advanceSlices bounded
  constructor
  · intro count same
    rcases later.ok count same with ⟨all, total⟩
    rw [left, List.length_drop] at total
    refine ⟨?_, by omega⟩
    rw [all, left, List.take_append_drop]
  · have begins := later.begins
    rw [left] at begins
    have whole := (List.prefix_append_right_inj
      (slices.flatten.take n)).2 begins
    rwa [List.take_append_drop] at whole

/-- By induction on the calls, with what is left for the later ones. -/
theorem writeLoop_written (slices : List (List UInt8)) (written : Nat)
    (outcomes : List WriteOutcome) :
    Written slices written (writeLoop slices written outcomes) := by
  induction outcomes generalizing slices written with
  | nil =>
      cases slices with
      | nil => exact Written.nil written
      | cons slice rest => exact Written.nothing fun n => by simp
  | cons outcome outcomes hypothesis =>
      cases slices with
      | nil => exact Written.nil written
      | cons slice rest =>
          have called := writeLoop_called slice rest written outcome outcomes
          generalize writeLoop (slice :: rest) written
            (outcome :: outcomes) = result at called ⊢
          cases called with
          | failed error => exact Written.nothing fun n => by simp
          | goesOn n positive bounded =>
              exact Written.called bounded (hypothesis _ _)

/-- The loop ends when every call accepts a byte. -/
theorem writeLoop_ends {slices : List (List UInt8)}
    (solid : ∀ slice ∈ slices, slice ≠ []) (written : Nat)
    {outcomes : List WriteOutcome}
    (progress : ∀ outcome ∈ outcomes, outcome.Progresses)
    (enough : slices.flatten.length ≤ outcomes.length) :
    ∃ n, (writeLoop slices written outcomes).1 = .ok n := by
  induction outcomes generalizing slices written with
  | nil =>
      cases slices with
      | nil => exact ⟨written, rfl⟩
      | cons slice rest =>
          have first := List.length_pos_iff.2 (solid slice (by simp))
          rw [List.flatten_cons, List.length_append] at enough
          simp only [List.length_nil] at enough
          omega
  | cons outcome outcomes hypothesis =>
      rw [List.forall_mem_cons] at progress
      cases slices with
      | nil => exact ⟨written, rfl⟩
      | cons slice rest =>
          have ends : ∀ error, writeLoop (slice :: rest) written
              (outcome :: outcomes) ≠ (.err error, []) :=
            writeLoop_ne_err (solid slice (by simp)) written progress.1
              outcomes
          have called := writeLoop_called slice rest written outcome outcomes
          generalize writeLoop (slice :: rest) written
            (outcome :: outcomes) = result at ends called ⊢
          cases called with
          | failed error => exact absurd rfl (ends error)
          | goesOn n positive bounded =>
              apply hypothesis (advanceSlices_ne_nil solid n) _ progress.2
              rw [flatten_advanceSlices bounded, List.length_drop]
              rw [List.length_cons] at enough
              omega

/-! ## What the calls have done -/

/-- How many bytes a call accepts at most. -/
def WriteOutcome.most : WriteOutcome → Nat
  | .accepted most => most
  | .failed => 0

/-- Why the loop has ended after so many calls that accepted bytes. -/
def Returned.Why (outcomes : List WriteOutcome) (calls : Nat) :
    Returned → Prop
  | .ok _ => True
  | .err .writer => outcomes[calls]? = some .failed
  | .err .writeZero => outcomes[calls]? = some (.accepted 0)
  | .pending => calls = outcomes.length

/--
The bytes accepted are as many as the first calls have accepted, and the next
call is the one that the result tells of.
-/
structure Told (slices : List (List UInt8)) (outcomes : List WriteOutcome)
    (calls : Nat) (result : Returned × List UInt8) : Prop where
  progress : ∀ outcome ∈ outcomes.take calls, outcome.Progresses
  length_eq : result.2.length =
    min ((outcomes.take calls).map WriteOutcome.most).sum
      slices.flatten.length
  unfinished : (∀ n, result.1 ≠ .ok n) →
    result.2.length < slices.flatten.length
  why : result.1.Why outcomes calls

/-- The loop ends before a call accepts a byte. -/
theorem Told.at_once {slice : List UInt8} {rest : List (List UInt8)}
    (solid : slice ≠ []) {outcomes : List WriteOutcome} {returned : Returned}
    (why : returned.Why outcomes 0) :
    Told (slice :: rest) outcomes 0 (returned, []) where
  progress outcome member := by
    cases member
  length_eq := (Nat.zero_min _).symm
  unfinished _ := by
    have first := List.length_pos_iff.2 solid
    rw [List.flatten_cons, List.length_append, List.length_nil]
    omega
  why := why

theorem Told.nil (written : Nat) (outcomes : List WriteOutcome) :
    Told [] outcomes 0 (.ok written, []) where
  progress outcome member := by
    cases member
  length_eq := (Nat.zero_min _).symm
  unfinished failed := absurd rfl (failed written)
  why := trivial

/-- The reason is one call further when a call comes before. -/
theorem Returned.Why.succ {returned : Returned}
    {outcomes : List WriteOutcome} {calls : Nat}
    (why : returned.Why outcomes calls) (outcome : WriteOutcome) :
    returned.Why (outcome :: outcomes) (calls + 1) := by
  cases returned with
  | ok n => trivial
  | err error =>
      cases error with
      | writeZero => exact why
      | writer => exact why
  | pending => exact congrArg (· + 1) why

/-- A call that accepts bytes comes before the others. -/
theorem Told.called {slices : List (List UInt8)} {most calls : Nat}
    {outcomes : List WriteOutcome} {result : Returned × List UInt8}
    (positive : most ≠ 0)
    (later : Told (advanceSlices slices (min most slices.flatten.length))
      outcomes calls result) :
    Told slices (.accepted most :: outcomes) (calls + 1)
      (result.1, slices.flatten.take (min most slices.flatten.length) ++
        result.2) := by
  have left := congrArg List.length
    (flatten_advanceSlices (Nat.min_le_right most slices.flatten.length))
  rw [List.length_drop] at left
  have front : (slices.flatten.take
      (min most slices.flatten.length)).length =
        min most slices.flatten.length := by
    rw [List.length_take]
    omega
  constructor
  · rw [List.take_succ_cons, List.forall_mem_cons]
    exact ⟨positive, later.progress⟩
  · have length := later.length_eq
    rw [List.take_succ_cons, List.map_cons, List.sum_cons,
      WriteOutcome.most]
    simp only [List.length_append, front]
    omega
  · intro failed
    have short := later.unfinished failed
    simp only [List.length_append, front]
    omega
  · exact later.why.succ _

/-- By induction on the calls, with what is left for the later ones. -/
theorem writeLoop_told {slices : List (List UInt8)}
    (solid : ∀ slice ∈ slices, slice ≠ []) (written : Nat)
    (outcomes : List WriteOutcome) :
    ∃ calls, Told slices outcomes calls
      (writeLoop slices written outcomes) := by
  induction outcomes generalizing slices written with
  | nil =>
      cases slices with
      | nil => exact ⟨0, .nil written []⟩
      | cons slice rest => exact ⟨0, .at_once (solid slice (by simp)) rfl⟩
  | cons outcome outcomes hypothesis =>
      cases slices with
      | nil => exact ⟨0, .nil written _⟩
      | cons slice rest =>
          have first : slice ≠ [] := solid slice (by simp)
          cases outcome with
          | failed => exact ⟨0, .at_once first rfl⟩
          | accepted most =>
              have some_ : 0 < (slice :: rest).flatten.length := by
                have bytes := List.length_pos_iff.2 first
                rw [List.flatten_cons, List.length_append]
                omega
              by_cases positive : most = 0
              · rw [positive, writeLoop, Nat.zero_min, if_pos rfl]
                exact ⟨0, .at_once first rfl⟩
              · rcases hypothesis
                    (advanceSlices_ne_nil solid
                      (min most (slice :: rest).flatten.length))
                    (written + min most (slice :: rest).flatten.length)
                  with ⟨calls, later⟩
                rw [writeLoop]
                simp only [if_neg (show min most
                  (slice :: rest).flatten.length ≠ 0 by omega)]
                exact ⟨calls + 1, later.called positive⟩

/-- What is promised of the loop for a list of slices. -/
structure Complete (slices : List (List UInt8))
    (outcomes : List WriteOutcome) : Prop where
  /-- Success means that the writer has accepted every byte once. -/
  ok : ∀ n, (writeAllVectored slices outcomes).1 = .ok n →
    (writeAllVectored slices outcomes).2 = slices.flatten ∧
      n = slices.flatten.length
  /-- At any time the bytes accepted are the first ones, in order. -/
  begins : (writeAllVectored slices outcomes).2 <+: slices.flatten
  /-- With a byte accepted by each call there are no more calls than bytes. -/
  ends : (∀ outcome ∈ outcomes, outcome.Progresses) →
    slices.flatten.length ≤ outcomes.length →
      ∃ n, (writeAllVectored slices outcomes).1 = .ok n
  /-- The writer's calls have accepted the bytes and given the error. -/
  told : ∃ calls,
    Told slices outcomes calls (writeAllVectored slices outcomes)

/-- The loop is complete for nonempty slices and every writer. -/
theorem writeAllVectored_complete {slices : List (List UInt8)}
    (solid : ∀ slice ∈ slices, slice ≠ []) (outcomes : List WriteOutcome) :
    Complete slices outcomes := by
  have written := writeLoop_written slices 0 outcomes
  constructor
  · intro n same
    rcases written.ok n same with ⟨all, count⟩
    rw [Nat.zero_add] at count
    exact ⟨all, count⟩
  · exact written.begins
  · exact fun progress enough => writeLoop_ends solid 0 progress enough
  · exact writeLoop_told solid 0 outcomes

/-- Two slices in three calls, one of which ends inside the second. -/
theorem writeAllVectored_complete_short :
    Complete [[1, 2], [3, 4, 5]]
      [.accepted 3, .accepted 1, .accepted 9] :=
  writeAllVectored_complete (by decide) _

example : writeAllVectored [[1, 2], [3, 4, 5]]
    [.accepted 3, .accepted 1, .accepted 9] =
      (.ok 5, [1, 2, 3, 4, 5]) := by
  decide

/-! ## The loop in the write task -/

/-- One call of the task's writer. -/
theorem step_wrote {state : WriteTask.State} {left : List (List UInt8)}
    (writing : state.phase = .writing left) {n : Nat} (positive : n ≠ 0)
    (bounded : n ≤ left.flatten.length) :
    WriteTask.step state (.wrote n) =
      some { state with
        phase :=
          if (advanceSlices left n).isEmpty then
            .flushing
          else
            .writing (advanceSlices left n)
        accepted := state.accepted ++ left.flatten.take n } := by
  simp only [WriteTask.step, writing, WriteTask.write,
    if_neg (Nat.not_lt.2 bounded), if_neg positive]

/-- The task that writes its batches to the end has run the loop. -/
theorem run_writing {state : WriteTask.State} {left : List (List UInt8)}
    (writing : state.phase = .writing left) (unfinished : left ≠ [])
    {written n : Nat} {outcomes : List WriteOutcome}
    (done : (writeLoop left written outcomes).1 = .ok n) :
    ∃ actions, Runs.run WriteTask.step state actions = some
      { state with
        phase := .flushing
        accepted := state.accepted ++
          (writeLoop left written outcomes).2 } := by
  induction outcomes generalizing state left written with
  | nil =>
      cases left with
      | nil => exact absurd rfl unfinished
      | cons slice rest => cases done
  | cons outcome outcomes hypothesis =>
      cases left with
      | nil => exact absurd rfl unfinished
      | cons slice rest =>
          have called := writeLoop_called slice rest written outcome outcomes
          generalize writeLoop (slice :: rest) written
            (outcome :: outcomes) = result at called done ⊢
          cases called with
          | failed error => cases done
          | goesOn m positive bounded =>
              have step := step_wrote writing positive bounded
              cases after : advanceSlices (slice :: rest) m with
              | nil =>
                  rw [after, List.isEmpty_nil, if_pos rfl] at step
                  refine ⟨[.wrote m], ?_⟩
                  rw [Runs.run_cons step, Runs.run_nil]
                  simp [writeLoop]
              | cons next later =>
                  rw [after, List.isEmpty_cons, if_neg Bool.false_ne_true]
                    at step
                  rw [after] at done
                  have writing_ : ({ state with
                      phase := .writing (next :: later)
                      accepted := state.accepted ++
                        (slice :: rest).flatten.take m } :
                          WriteTask.State).phase =
                      .writing (next :: later) := rfl
                  rcases hypothesis writing_ (List.cons_ne_nil _ _) done with
                    ⟨actions, ran⟩
                  refine ⟨.wrote m :: actions, ?_⟩
                  rw [Runs.run_cons step, ran]
                  simp only [List.append_assoc]

end Vectored
end Thubo
