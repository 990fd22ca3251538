import Thubo.Lib.Runs
import Thubo.Pipeline.RoundTrip

/-!
# The write task and its writer

The write task pulls batches, writes them and keep-alives to its writer, and
at the end drains the pipeline and writes what is left.  The writer is free:
each call may accept any part of what it is given, fail, or stay pending
until the write timer expires.

The bytes accepted are whole batches and keep-alives up to the last one, as
long as the main loop is not left inside of one of them with batches left to
drain.  The code does not check this: after a failed write it drains.
-/

namespace Thubo
namespace WriteTask

open Tx (WriteBatch)

/-! ## The writer's slices -/

/-- The slices of one batch: its frame, then its fragment chunks. -/
def slices (batch : WriteBatch) : List (List UInt8) :=
  batch.frame.data ::
    if batch.fragment.isEmpty then
      []
    else
      batch.fragment.chunks.map Chunk.asSlice

/-- `IoSlice::advance_slices`. -/
def advanceSlices : List (List UInt8) → Nat → List (List UInt8)
  | [], _ => []
  | slice :: rest, n =>
      if slice.length ≤ n then
        advanceSlices rest (n - slice.length)
      else
        slice.drop n :: rest

/-! ## States and steps -/

/-- Maximum number of ready batches coalesced into one write. -/
def COALESCE_MAX_BATCHES : Nat := 8

/-- Where the task is. -/
inductive Phase where
  /-- Waiting for a batch, the keep-alive timer or the token. -/
  | waiting
  /-- Writing what is left of a keep-alive. -/
  | keepAlive (left : List (List UInt8))
  /-- Writing what is left of the coalesced batches. -/
  | writing (left : List (List UInt8))
  /-- Flushing the writer after the coalesced batches. -/
  | flushing
  /-- The main loop is left; the pipeline is about to be drained. -/
  | drain
  /-- Writing what is left of a drained batch. -/
  | drainWriting (left : List (List UInt8)) (rest : List WriteBatch)
  /-- Flushing the writer after a drained batch. -/
  | drainFlushing (rest : List WriteBatch)
  | done
deriving DecidableEq

/-- The task with its history. -/
structure State where
  phase : Phase
  /-- The batches that pull, `try_pull` and drain have returned. -/
  handed : List WriteBatch
  /-- The bytes the writer has accepted. -/
  accepted : List UInt8
deriving DecidableEq

def init : State :=
  ⟨.waiting, [], []⟩

/-- What the surroundings of the task do next. -/
inductive Action where
  /-- Pull returns a batch and `try_pull` some more. -/
  | pulled (first : WriteBatch) (more : List WriteBatch)
  /-- Pull returns nothing, or the token is cancelled. -/
  | leave
  /-- The keep-alive timer expires. -/
  | keepAliveDue
  /-- The writer accepts some bytes. -/
  | wrote (n : Nat)
  /-- The writer has flushed. -/
  | flushed
  /-- The writer returns an error. -/
  | failed
  /-- The write timer expires. -/
  | timedOut
  /-- Drain returns the batches that are left. -/
  | drained (batches : List WriteBatch)

/-- The next drained batch, or the end. -/
def nextDrained : List WriteBatch → Phase
  | [] => .done
  | batch :: rest => .drainWriting (slices batch) rest

/--
A call of the writer that accepts `n` of the bytes that are left.  Accepting
nothing is an error.
-/
def write (state : State) (left : List (List UInt8)) (n : Nat)
    (more : List (List UInt8) → Phase) (finished failed : Phase) :
    Option State :=
  if left.flatten.length < n then
    none
  else if n = 0 then
    some { state with phase := failed }
  else
    let after := advanceSlices left n
    some
      { state with
        phase := if after.isEmpty then finished else more after
        accepted := state.accepted ++ left.flatten.take n }

/-- One step; nothing when the action is not possible in the phase. -/
def step (state : State) : Action → Option State
  | .pulled first more =>
      match state.phase with
      | .waiting =>
          if (first :: more).length ≤ COALESCE_MAX_BATCHES then
            some
              { state with
                phase := .writing ((first :: more).flatMap slices)
                handed := state.handed ++ (first :: more) }
          else
            none
      | _ => none
  | .leave =>
      match state.phase with
      | .waiting => some { state with phase := .drain }
      | _ => none
  | .keepAliveDue =>
      match state.phase with
      | .waiting => some { state with phase := .keepAlive [[0, 0]] }
      | _ => none
  | .wrote n =>
      match state.phase with
      | .keepAlive left =>
          write state left n .keepAlive .waiting .drain
      | .writing left => write state left n .writing .flushing .drain
      | .drainWriting left rest =>
          write state left n (.drainWriting · rest) (.drainFlushing rest)
            .done
      | _ => none
  | .flushed =>
      match state.phase with
      | .flushing => some { state with phase := .waiting }
      | .drainFlushing rest =>
          some { state with phase := nextDrained rest }
      | _ => none
  | .failed =>
      match state.phase with
      | .keepAlive _ | .writing _ | .flushing =>
          some { state with phase := .drain }
      | .drainWriting _ _ | .drainFlushing _ =>
          some { state with phase := .done }
      | _ => none
  | .timedOut =>
      -- the keep-alive is written without a timer
      match state.phase with
      | .writing _ | .flushing => some { state with phase := .drain }
      | .drainWriting _ _ | .drainFlushing _ =>
          some { state with phase := .done }
      | _ => none
  | .drained batches =>
      match state.phase with
      | .drain =>
          some
            { state with
              phase := nextDrained batches
              handed := state.handed ++ batches }
      | _ => none

/-! ## Framing -/

/-- Pieces whose batches have been handed out, in order. -/
def HandedOut (state : State) (pieces : List Piece) : Prop :=
  (Piece.batches pieces).Sublist state.handed

/--
The bytes accepted begin a sequence of whole batches handed out and
keep-alives.
-/
def Framed (state : State) : Prop :=
  ∃ pieces, HandedOut state pieces ∧ state.accepted <+: wire pieces

/-- The bytes accepted are whole batches handed out and keep-alives. -/
def Whole (state : State) : Prop :=
  ∃ pieces, HandedOut state pieces ∧ state.accepted = wire pieces

/-- Drain returns no batch when the last write was left half-way. -/
def Guard (state : State) : Action → Prop
  | .drained batches => batches = [] ∨ Whole state
  | _ => True

/-! ## The invariant -/

theorem flatten_slices (batch : WriteBatch) :
    (slices batch).flatten = batch.image := by
  unfold slices WriteBatch.image Bytes.toVec contents Bytes.isEmpty
  cases chunks : batch.fragment.chunks with
  | nil => simp
  | cons chunk rest => simp [List.flatMap]

theorem flatten_flatMap_slices (batches : List WriteBatch) :
    (batches.flatMap slices).flatten =
      wire (batches.map Piece.batch) := by
  induction batches with
  | nil => rfl
  | cons batch batches hypothesis =>
      rw [List.flatMap_cons, List.flatten_append, hypothesis,
        flatten_slices]
      simp [wire, Piece.bytes]

/-- Advancing drops the bytes accepted and nothing else. -/
theorem flatten_advanceSlices {left : List (List UInt8)} {n : Nat}
    (enough : n ≤ left.flatten.length) :
    (advanceSlices left n).flatten = left.flatten.drop n := by
  induction left generalizing n with
  | nil => rw [advanceSlices, List.flatten_nil, List.drop_nil]
  | cons slice rest hypothesis =>
      rw [List.flatten_cons, List.length_append] at enough
      rw [advanceSlices, List.flatten_cons]
      split
      · rename_i covered
        rw [hypothesis (by omega), List.drop_append,
          List.drop_of_length_le covered, List.nil_append]
      · rename_i inside
        rw [List.flatten_cons,
          List.drop_append_of_le_length (Nat.le_of_not_le inside)]

/-- How a call of the writer ends. -/
theorem write_cases {state after : State} {left : List (List UInt8)}
    {n : Nat} {more : List (List UInt8) → Phase} {finished failed : Phase}
    (written : write state left n more finished failed = some after) :
    after = { state with phase := failed } ∨
    ∃ taken rest, left.flatten = taken ++ rest.flatten ∧
      (rest = [] ∧ after =
          { state with
            phase := finished
            accepted := state.accepted ++ taken } ∨
        after =
          { state with
            phase := more rest
            accepted := state.accepted ++ taken }) := by
  unfold write at written
  split at written
  · cases written
  · rename_i enough
    split at written
    · cases written
      exact Or.inl rfl
    · cases written
      refine Or.inr ⟨left.flatten.take n, advanceSlices left n, ?_, ?_⟩
      · rw [flatten_advanceSlices (Nat.le_of_not_lt enough),
          List.take_append_drop]
      · by_cases all : advanceSlices left n = []
        · left
          exact ⟨all, by simp [all]⟩
        · right
          have unfinished : (advanceSlices left n).isEmpty = false := by
            simpa using all
          simp [unfinished]

/-- What the bytes accepted are in each phase. -/
def Invariant (state : State) : Prop :=
  ∃ pieces, match state.phase with
    | .waiting | .flushing =>
        HandedOut state pieces ∧ state.accepted = wire pieces
    | .keepAlive left | .writing left =>
        HandedOut state pieces ∧
          state.accepted ++ left.flatten = wire pieces
    | .drain | .done =>
        HandedOut state pieces ∧ state.accepted <+: wire pieces
    | .drainWriting left rest =>
        (Piece.batches pieces ++ rest).Sublist state.handed ∧
          state.accepted ++ left.flatten = wire pieces
    | .drainFlushing rest =>
        (Piece.batches pieces ++ rest).Sublist state.handed ∧
          state.accepted = wire pieces

theorem wire_append (left right : List Piece) :
    wire (left ++ right) = wire left ++ wire right :=
  List.flatMap_append

theorem batches_append (left right : List Piece) :
    Piece.batches (left ++ right) =
      Piece.batches left ++ Piece.batches right :=
  List.filterMap_append

theorem batches_map (batches : List WriteBatch) :
    Piece.batches (batches.map Piece.batch) = batches := by
  induction batches with
  | nil => rfl
  | cons batch batches hypothesis =>
      rw [List.map_cons]
      exact congrArg (batch :: ·) hypothesis

/-- The bytes accepted are framed in every phase. -/
theorem Invariant.framed {state : State} (holds : Invariant state) :
    Framed state := by
  rcases holds with ⟨pieces, holds⟩
  refine ⟨pieces, ?_⟩
  cases phase : state.phase with
  | waiting =>
      rw [phase] at holds
      exact ⟨holds.1, holds.2 ▸ List.prefix_refl _⟩
  | flushing =>
      rw [phase] at holds
      exact ⟨holds.1, holds.2 ▸ List.prefix_refl _⟩
  | keepAlive left =>
      rw [phase] at holds
      exact ⟨holds.1, ⟨_, holds.2⟩⟩
  | writing left =>
      rw [phase] at holds
      exact ⟨holds.1, ⟨_, holds.2⟩⟩
  | drain =>
      rw [phase] at holds
      exact holds
  | done =>
      rw [phase] at holds
      exact holds
  | drainWriting left rest =>
      rw [phase] at holds
      exact ⟨(List.sublist_append_left _ _).trans holds.1, ⟨_, holds.2⟩⟩
  | drainFlushing rest =>
      rw [phase] at holds
      exact ⟨(List.sublist_append_left _ _).trans holds.1,
        holds.2 ▸ List.prefix_refl _⟩

/-- The drain goes on with the next batch after whole pieces. -/
theorem invariant_nextDrained (state : State) {rest : List WriteBatch}
    {pieces : List Piece}
    (handed : (Piece.batches pieces ++ rest).Sublist state.handed)
    (whole : state.accepted = wire pieces) :
    Invariant { state with phase := nextDrained rest } := by
  cases rest with
  | nil =>
      rw [List.append_nil] at handed
      exact ⟨pieces, handed, whole ▸ List.prefix_refl _⟩
  | cons batch rest =>
      refine ⟨pieces ++ [.batch batch], ?_, ?_⟩
      · rw [batches_append, List.append_assoc]
        exact handed
      · rw [wire_append, ← whole, flatten_slices]
        simp [wire, Piece.bytes]

/-- The writer has accepted the last part of a piece. -/
theorem whole_of_split {accepted front whole : List UInt8}
    {left : List (List UInt8)} (before : accepted ++ left.flatten = whole)
    (split : left.flatten = front ++ ([] : List (List UInt8)).flatten) :
    accepted ++ front = whole := by
  rw [← before, split, List.flatten_nil, List.append_nil]

/-- The writer has accepted a part of a piece. -/
theorem rest_of_split {accepted front whole : List UInt8}
    {left rest : List (List UInt8)}
    (before : accepted ++ left.flatten = whole)
    (split : left.flatten = front ++ rest.flatten) :
    (accepted ++ front) ++ rest.flatten = whole := by
  rw [← before, split, List.append_assoc]

/-- Every guarded step keeps the invariant. -/
theorem step_invariant {state after : State} {action : Action}
    (holds : Invariant state) (guard : Guard state action)
    (taken : step state action = some after) : Invariant after := by
  have framed := holds.framed
  rcases holds with ⟨pieces, holds⟩
  rcases state with ⟨phase, handed, accepted⟩
  cases action with
  | pulled first more =>
      cases phase <;> simp only [step] at taken <;> try cases taken
      split at taken
      · cases taken
        refine ⟨pieces ++ (first :: more).map Piece.batch, ?_, ?_⟩
        · rw [HandedOut, batches_append, batches_map]
          exact holds.1.append (List.Sublist.refl _)
        · rw [wire_append, flatten_flatMap_slices]
          exact congrArg (· ++ _) holds.2
      · cases taken
  | leave =>
      cases phase <;> simp only [step] at taken <;> try cases taken
      exact framed
  | keepAliveDue =>
      cases phase <;> simp only [step] at taken <;> try cases taken
      refine ⟨pieces ++ [.keepAlive], ?_, ?_⟩
      · rw [HandedOut, batches_append]
        exact (List.append_nil _).symm ▸ holds.1
      · rw [wire_append]
        exact congrArg (· ++ [0, 0]) holds.2
  | wrote n =>
      cases phase <;> simp only [step] at taken <;> try cases taken
      case keepAlive left =>
        rcases write_cases taken with
          rfl | ⟨front, rest, split, ⟨rfl, rfl⟩ | rfl⟩
        · exact framed
        · exact ⟨pieces, holds.1, whole_of_split holds.2 split⟩
        · exact ⟨pieces, holds.1, rest_of_split holds.2 split⟩
      case writing left =>
        rcases write_cases taken with
          rfl | ⟨front, rest, split, ⟨rfl, rfl⟩ | rfl⟩
        · exact framed
        · exact ⟨pieces, holds.1, whole_of_split holds.2 split⟩
        · exact ⟨pieces, holds.1, rest_of_split holds.2 split⟩
      case drainWriting left later =>
        rcases write_cases taken with
          rfl | ⟨front, rest, split, ⟨rfl, rfl⟩ | rfl⟩
        · exact framed
        · exact ⟨pieces, holds.1, whole_of_split holds.2 split⟩
        · exact ⟨pieces, holds.1, rest_of_split holds.2 split⟩
  | flushed =>
      cases phase <;> simp only [step] at taken <;> try cases taken
      · exact ⟨pieces, holds⟩
      · exact invariant_nextDrained _ holds.1 holds.2
  | failed =>
      cases phase <;> simp only [step] at taken <;> cases taken <;>
        exact framed
  | timedOut =>
      cases phase <;> simp only [step] at taken <;> cases taken <;>
        exact framed
  | drained batches =>
      cases phase <;> simp only [step] at taken <;> try cases taken
      rcases guard with rfl | ⟨whole, handedOut, all⟩
      · refine ⟨pieces, ?_⟩
        simpa [nextDrained, HandedOut] using holds
      · exact invariant_nextDrained ⟨.drain, handed ++ batches, accepted⟩
          (handedOut.append (List.Sublist.refl batches)) all

/--
In every run that drains nothing after a write was left half-way, the bytes
accepted begin a sequence of whole batches and keep-alives.
-/
theorem run_framed {actions : List Action} {state : State}
    (guarded : Runs.Guarded step Guard init actions)
    (ran : Runs.run step init actions = some state) : Framed state := by
  have initially : Invariant init := ⟨[], List.nil_sublist _, rfl⟩
  exact (Runs.invariant
    (fun _ _ _ holds guard taken => step_invariant holds guard taken)
    initially guarded ran).framed

/-- A batch with a frame of one message of one byte. -/
def sampleBatch : WriteBatch where
  frame := ⟨7, [5, 0, 0, 1, 0, 1, 42], by decide⟩
  fragment := .new
  qos := ⟨0⟩
  drop := none

/-- A batch in two writes, a keep-alive, and a batch that is drained. -/
def sampleRun : List Action :=
  [.pulled sampleBatch [], .wrote 3, .wrote 4, .flushed, .keepAliveDue,
    .wrote 2, .leave, .drained [sampleBatch], .wrote 3, .timedOut]

/-- The drained batch is cut short by the write timer. -/
theorem run_framed_drained :
    Framed ⟨.done, [sampleBatch, sampleBatch],
      [5, 0, 0, 1, 0, 1, 42, 0, 0, 5, 0, 0]⟩ := by
  have whole : Whole ⟨.drain, [sampleBatch],
      [5, 0, 0, 1, 0, 1, 42, 0, 0]⟩ :=
    ⟨[.batch sampleBatch, .keepAlive], List.Sublist.refl _, rfl⟩
  have guarded : Runs.Guarded step Guard init sampleRun :=
    ⟨trivial, trivial, trivial, trivial, trivial, trivial, trivial,
      Or.inr whole, trivial, trivial, trivial⟩
  exact run_framed guarded (by decide)

/--
The writer accepts one byte of a keep-alive and then fails; the batch that is
drained lands inside of the keep-alive.
-/
theorem failed_keepAlive_not_framed :
    ∃ state, Runs.run step init [.keepAliveDue, .wrote 1, .failed,
        .drained [sampleBatch], .wrote 7] = some state ∧
      ¬ Framed state := by
  refine ⟨⟨.drainFlushing [], [sampleBatch],
    [0, 5, 0, 0, 1, 0, 1, 42]⟩, by decide, ?_⟩
  rintro ⟨pieces, handedOut, begins⟩
  cases pieces with
  | nil => exact absurd begins (by decide)
  | cons piece pieces =>
      cases piece with
      | keepAlive =>
          have second := (List.cons_prefix_cons.1 begins).2
          exact absurd (List.cons_prefix_cons.1 second).1 (by decide)
      | batch batch =>
          have member : batch ∈ [sampleBatch] :=
            handedOut.subset (List.mem_cons_self ..)
          rw [List.mem_singleton.1 member] at begins
          exact absurd (List.cons_prefix_cons.1 begins).1 (by decide)

end WriteTask
end Thubo
