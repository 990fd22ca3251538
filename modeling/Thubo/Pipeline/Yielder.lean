import Thubo.Pipeline.Moves

/-!
# The counters of the exponential backoff

Whenever a call of `pull` finds a priority booked, it yields as often as the
counter of the priority says, two to that power, and counts up.  The counters
are cleared when all priorities are found empty.  They are local variables of
the call and decide nothing but the number of times it yields.

So a counter is the number of times that its priority has been found booked
since the last such pass, and nothing else bounds it.  Each time but one has
met an obstacle, such as a lock that was held; this is proved for the calls
with their obstacles (`Watched.few_of_unhindered`).
-/

namespace Thubo
namespace Tx

open Pipeline (Action Did Goes Pulls)

/-- The pipeline with the counters of the call of `pull`. -/
structure Yielder where
  pipeline : Pipeline
  /-- `backoff_num`, a `u16` for each priority. -/
  backoffNum : Priority → Nat
  /--
  How often a priority has been found booked since the call began or last
  found all priorities empty.
  -/
  visits : Priority → Nat

namespace Yielder

def new (capacity batchSize : Nat) : Yielder :=
  ⟨.new capacity batchSize, fun _ => 0, fun _ => 0⟩

/-- The end of `0..1 << n`, in which a shift counts modulo its width. -/
def yields (n : Nat) : Int :=
  ((1 : BitVec 32) <<< (n % 32)).toInt

/-- A call of `pull` that inspects a priority finds a booked batch only. -/
def findsBooked (state : Yielder) (p : Priority) : Bool :=
  let pool := (state.pipeline.queues p).pool
  state.pipeline.puller.mode == .pull && pool.ring.isEmpty &&
    pool.booked.isSome

/-- The counters after a step; they wrap around. -/
def count (state : Yielder) : Action → Priority → Nat
  | .pull _ => fun _ => 0
  | .puller _ =>
      match state.pipeline.puller.point with
      | .yielding p =>
          Priority.update state.backoffNum p
            ((state.backoffNum p + 1) % 2 ^ 16)
      | .unsetBackoff => fun _ => 0
      | _ => state.backoffNum
  | _ => state.backoffNum

/-- The visits after a step. -/
def visit (state : Yielder) : Action → Priority → Nat
  | .pull _ => fun _ => 0
  | .puller _ =>
      match state.pipeline.puller.point with
      | .look p =>
          if state.findsBooked p then
            Priority.update state.visits p (state.visits p + 1)
          else
            state.visits
      | .unsetBackoff => fun _ => 0
      | _ => state.visits
  | _ => state.visits

def step (state : Yielder) (action : Action) : Option Yielder :=
  match state.pipeline.step action with
  | some after => some ⟨after, state.count action, state.visit action⟩
  | none => none

/-- The counter that the call shifts by stays a shift and counts up. -/
structure Bounded (state : Yielder) : Prop where
  shift (p : Priority) (yielding : state.pipeline.puller.point =
    .yielding p) : state.backoffNum p < 31
  yields (p : Priority) (yielding : state.pipeline.puller.point =
    .yielding p) : yields (state.backoffNum p) = 2 ^ state.backoffNum p
  increment (p : Priority) (yielding : state.pipeline.puller.point =
    .yielding p) : state.backoffNum p + 1 < 2 ^ 16

/-- The priority that the next step of a call of `pull` finds booked. -/
def found (state : Yielder) : Action → Option Priority
  | .puller _ =>
      match state.pipeline.puller.point with
      | .look p => if state.findsBooked p then some p else none
      | _ => none
  | _ => none

/--
A priority is found booked at most 31 times before all of them are found
empty.
-/
def Few (state : Yielder) (action : Action) : Prop :=
  ∀ p ∈ state.found action, state.visits p < 31

instance : DecidableRel Few := fun state action =>
  inferInstanceAs (Decidable (∀ p ∈ state.found action, _))

/-! ## A counter is the number of visits -/

variable {state after : Yielder} {action : Action} {aged : Bool}

/-- The visits that are not counted yet, in a call of `pull`. -/
def due : PullPoint → Option (Priority → Nat)
  | .setBackoff p | .yielding p =>
      some (Priority.update (fun _ => 0) p 1)
  | .refill _ _ discarded => if discarded then some fun _ => 0 else none
  | .test | .look _ | .take _ | .clear _ | .decide .. | .load _ | .age _
  | .setFlush _ | .tryLock _ | .flush _ | .unlock _ | .unsetBackoff
  | .check | .listening | .parked => some fun _ => 0
  | _ => none

/-- Every visit has been counted, except for one that is due. -/
def Agrees (state : Yielder) : Prop :=
  ∀ extra, due state.pipeline.puller.point = some extra →
    ∀ p, state.visits p = state.backoffNum p + extra p ∧
      state.visits p ≤ 31

theorem yields_eq {n : Nat} (small : n < 31) : yields n = 2 ^ n := by
  have all : ∀ n : Fin 31, yields n = 2 ^ n.val := by decide
  exact all ⟨n, small⟩

theorem Agrees.bounded (agrees : state.Agrees) : state.Bounded := by
  have small (p : Priority) (yielding : state.pipeline.puller.point =
      .yielding p) : state.backoffNum p < 31 := by
    rcases agrees (Priority.update (fun _ => 0) p 1)
      (by rw [yielding]; rfl) p with ⟨same, few⟩
    rw [Priority.update_same] at same
    omega
  exact ⟨small, fun p yielding => yields_eq (small p yielding),
    fun p yielding => by have := small p yielding; omega⟩

/-- A step that neither counts nor visits. -/
theorem Agrees.keep (agrees : state.Agrees) {later : Pipeline}
    (counts : state.count action = state.backoffNum)
    (visits : state.visit action = state.visits)
    (points : ∀ extra, due later.puller.point = some extra →
      due state.pipeline.puller.point = some extra) :
    Agrees ⟨later, state.count action, state.visit action⟩ := by
  intro extra isDue
  rw [counts, visits]
  exact agrees extra (points extra isDue)

/-- A point at which the puller neither counts nor visits. -/
def Quiet : PullPoint → Prop
  | .yielding _ | .look _ | .unsetBackoff => False
  | _ => True

theorem Agrees.quiet (agrees : state.Agrees) {later : Pipeline}
    {point : PullPoint}
    (at_ : state.pipeline.puller.point = point) (quiet : Quiet point)
    (points : ∀ extra, due later.puller.point = some extra →
      due point = some extra) :
    Agrees
      ⟨later, state.count (.puller aged), state.visit (.puller aged)⟩ := by
  apply agrees.keep
  · simp only [count, at_]
    cases point <;> first | exact absurd quiet id | rfl
  · simp only [visit, at_]
    cases point <;> first | exact absurd quiet id | rfl
  · rw [at_]
    exact points

/-- Outside of a call nothing is claimed. -/
theorem agrees_of_none {later : Pipeline}
    {counts visits : Priority → Nat}
    (outside : due later.puller.point = none) :
    Agrees ⟨later, counts, visits⟩ := by
  intro extra isDue
  cases outside.symm.trans isDue

theorem due_next {p : Priority} {point : Priority → PullPoint}
    {last : PullPoint} (points : ∀ q, due (point q) = none)
    (final : due last = none) :
    due (Pipeline.next p point last) = none := by
  unfold Pipeline.next
  split
  · exact points _
  · exact final

/-- A step of a queue is no visit. -/
theorem Agrees.goes (agrees : state.Agrees) {p : Priority}
    {act : Queue.Action} {point : PullPoint} {queue : Queue}
    (goes : Goes state.pipeline p act point) :
    Agrees
      ⟨{ state.pipeline with
          queues := Priority.update state.pipeline.queues p queue
          puller := { state.pipeline.puller with point := point } },
        state.count (.puller aged), state.visit (.puller aged)⟩ := by
  cases goes with
  | drainLock p at_ => exact agrees_of_none (due_next (fun _ => rfl) rfl)
  | drainFlush p at_ => exact agrees_of_none (due_next (fun _ => rfl) rfl)
  | dropRefill p at_ => exact agrees_of_none (due_next (fun _ => rfl) rfl)
  | drainTake p at_ => exact agrees_of_none rfl
  | clear p slot at_ hand =>
      exact agrees.quiet at_ trivial fun _ isDue => isDue
  | discard p congested slot at_ hand fate =>
      exact agrees.quiet at_ trivial fun _ isDue => isDue
  | notify slot discarded at_ =>
      cases discarded with
      | false => exact agrees_of_none rfl
      | true => exact agrees.quiet at_ trivial fun _ isDue => isDue
  | reject slot discarded at_ =>
      exact agrees.quiet at_ trivial fun _ isDue => isDue
  | put slot discarded at_ =>
      exact agrees.quiet at_ trivial fun _ isDue => isDue
  | _ =>
      rename_i at_
      exact agrees.quiet at_ trivial fun _ isDue => isDue

theorem due_foundBooked {pipeline : Pipeline} {p : Priority}
    (mode : pipeline.puller.mode = .pull) :
    due (pipeline.foundBooked p).puller.point =
      some (Priority.update (fun _ => 0) p 1) := by
  simp only [Pipeline.foundBooked, Pipeline.goTo, mode]
  split <;> rfl

/-- An inspection that finds a priority booked is one more visit. -/
theorem Agrees.booked (agrees : state.Agrees) (few : state.Few (.puller aged))
    {p : Priority} (at_ : state.pipeline.puller.point = .look p)
    (ring : (state.pipeline.queues p).pool.ring = [])
    (booked : (state.pipeline.queues p).pool.booked.isSome) :
    Agrees
      ⟨(state.pipeline.seen p).foundBooked p, state.count (.puller aged),
        state.visit (.puller aged)⟩ := by
  intro extra isDue q
  cases mode : state.pipeline.puller.mode with
  | tryPull =>
      simp only [Pipeline.foundBooked, Pipeline.goTo, Pipeline.seen, mode]
        at isDue
      cases isDue
  | pull =>
      have finds : state.findsBooked p = true := by
        simp [findsBooked, mode, ring, booked]
      have extra_eq : extra = Priority.update (fun _ => 0) p 1 :=
        (Option.some.inj ((due_foundBooked mode).symm.trans isDue)).symm
      have fewer : state.visits p < 31 := by
        apply few p
        simp only [found, at_, finds, if_true]
        rfl
      have same := agrees (fun _ => 0) (by rw [at_]; rfl) q
      simp only [count, visit, at_, finds, if_true, extra_eq,
        Priority.update_apply]
      split
      · rename_i here
        subst here
        omega
      · exact same

/-- A step of the puller in which it does not visit. -/
theorem Agrees.looks (agrees : state.Agrees) {p : Priority}
    (at_ : state.pipeline.puller.point = .look p)
    (silent : state.findsBooked p = false) {later : Pipeline}
    (points : ∀ extra, due later.puller.point = some extra →
      extra = fun _ => 0) :
    Agrees
      ⟨later, state.count (.puller aged), state.visit (.puller aged)⟩ := by
  apply agrees.keep
  · simp only [count, at_]
  · simp only [visit, at_, silent, Bool.false_eq_true, if_false]
  · intro extra isDue
    rw [at_, points extra isDue]
    rfl

theorem Agrees.pulls (agrees : state.Agrees)
    (few : state.Few (.puller aged)) {later : Pipeline}
    (pulls : Pulls state.pipeline later) :
    Agrees
      ⟨later, state.count (.puller aged), state.visit (.puller aged)⟩ := by
  cases pulls with
  | goes p act point queue goes stepped => exact agrees.goes goes
  | handOut p congested slot queue at_ hand fate stepped =>
      exact agrees_of_none rfl
  | drainUnlock p queue at_ stepped =>
      exact agrees_of_none (due_next (fun _ => rfl) rfl)
  | disabled at_ disabled => exact agrees_of_none rfl
  | scan at_ enabled =>
      exact agrees.quiet at_ trivial fun _ isDue => isDue
  | found p at_ ring =>
      refine agrees.looks at_ ?_ fun _ isDue => (Option.some.inj isDue).symm
      simp [findsBooked, ring]
  | booked p at_ ring booked => exact agrees.booked few at_ ring booked
  | lower p lower at_ ring free next =>
      refine agrees.looks at_ ?_ fun _ isDue => (Option.some.inj isDue).symm
      simp [findsBooked, free]
  | nothing p at_ ring free last =>
      refine agrees.looks at_ (by simp [findsBooked, free]) ?_
      intro extra isDue
      simp only [Pipeline.nothing, Pipeline.goTo] at isDue
      split at isDue
      · exact (Option.some.inj isDue).symm
      · cases isDue
  | room slot discarded at_ room =>
      exact agrees.quiet at_ trivial fun _ isDue => isDue
  | setBackoff p at_ =>
      exact agrees.quiet at_ trivial fun _ isDue => isDue
  | yielding p at_ =>
      intro extra isDue q
      cases isDue
      have same := agrees (Priority.update (fun _ => 0) p 1)
        (by rw [at_]; rfl) q
      simp only [Priority.update_apply] at same
      simp only [count, visit, at_, Priority.update_apply]
      split
      · rename_i here
        subst here
        rw [if_pos rfl] at same
        omega
      · rename_i elsewhere
        rwa [if_neg elsewhere] at same
  | load p at_ =>
      refine agrees.quiet at_ trivial ?_
      intro extra isDue
      simp only [Pipeline.load] at isDue
      split at isDue <;> exact isDue
  | age p aged' at_ =>
      refine agrees.quiet at_ trivial ?_
      intro extra isDue
      cases aged' <;> exact isDue
  | locked p at_ =>
      exact agrees.quiet at_ trivial fun _ isDue => isDue
  | unsetBackoff at_ =>
      intro extra isDue q
      cases isDue
      simp only [count, visit, at_]
      exact ⟨trivial, Nat.zero_le _⟩
  | check at_ =>
      refine agrees.quiet at_ trivial ?_
      intro extra isDue
      simp only [Pipeline.wait, Pipeline.goTo] at isDue
      split at isDue
      · exact isDue
      · exact isDue
      · cases isDue
  | listening at_ =>
      refine agrees.quiet at_ trivial ?_
      intro extra isDue
      simp only [Pipeline.wait, Pipeline.goTo] at isDue
      split at isDue
      · exact isDue
      · exact isDue
      · cases isDue
  | parked at_ => exact agrees.quiet at_ trivial fun _ isDue => isDue
  | drainFound p at_ ring => exact agrees_of_none rfl
  | drainNothing p at_ ring =>
      exact agrees_of_none (due_next (fun _ => rfl) rfl)
  | dropPull at_ => exact agrees_of_none rfl

/-- Every step counts what it visits. -/
theorem Agrees.step (agrees : state.Agrees) (few : state.Few action)
    (stepped : state.step action = some after) : after.Agrees := by
  unfold Yielder.step at stepped
  cases moved : state.pipeline.step action with
  | none =>
      rw [moved] at stepped
      cases stepped
  | some later =>
      rw [moved] at stepped
      cases stepped
      cases Pipeline.step_did moved with
      | puller aged later pulls => exact agrees.pulls few pulls
      | pull mode idle undrained =>
          intro extra isDue p
          cases isDue
          exact ⟨rfl, Nat.zero_le _⟩
      | refill p slot idle held => exact agrees_of_none rfl
      | cancelPull waits => exact agrees_of_none rfl
      | drain idle undrained => exact agrees_of_none rfl
      | drop idle => exact agrees_of_none rfl
      | _ => exact agrees

/-! ## Every run -/

/-- A message is booked, and a call of `pull` finds it. -/
def visited : List Action :=
  .call Pipeline.shortMessage ⟨0⟩ ::
    List.replicate 12 (.push .high 0) ++ [.pull .pull] ++
    List.replicate 3 (.puller false)

/-- A push holds the lock while the call tries to take it. -/
def crossed (call : Nat) : List Action :=
  .call Pipeline.shortMessage ⟨0⟩ ::
    List.replicate 3 (.push .high call) ++
    List.replicate 5 (.puller false) ++
    List.replicate 5 (.push .high call)

/-- Thirty pushes in a row hold the lock whenever the call tries it. -/
def busy : List Action :=
  visited ++ List.replicate 3 (.puller false) ++
    (List.range 30).flatMap (fun call => crossed (call + 1)) ++
    List.replicate 2 (.puller false)

/--
A call that finds no priority booked more than 31 times before it finds all
of them empty shifts by less than 31 and does not overflow its counters.
-/
theorem bounded_of_run {capacity batchSize : Nat} {actions : List Action}
    (few : Runs.Guarded step Few (new capacity batchSize) actions)
    (ran : Runs.run step (new capacity batchSize) actions = some after) :
    after.Bounded := by
  have initially : (new capacity batchSize).Agrees := by
    intro extra isDue
    cases isDue
  exact (Runs.invariant
    (fun _ _ _ agrees met stepped => Agrees.step agrees met stepped)
    initially few ran).bounded

/-- A call visits a priority for the first time. -/
theorem bounded_of_run_visited :
    ∃ after : Yielder, after.Bounded ∧
      after.pipeline.puller.point = .yielding .high := by
  have passed : (Runs.run step (new 1 1000) visited).any (fun state =>
      Decidable.decide (state.pipeline.puller.point = .yielding .high)) =
        true := by
    decide +kernel
  rcases Runs.exists_of_any passed with ⟨after, ran, yielding⟩
  exact ⟨after, bounded_of_run (by decide +kernel) ran,
    of_decide_eq_true yielding⟩

/-- Pushes that hold the lock at the wrong times let the shift reach 31. -/
theorem busy_not_bounded :
    ∃ after, Runs.run step (new 1 1000) busy = some after ∧
      ¬ after.Bounded := by
  have passed : (Runs.run step (new 1 1000) busy).any (fun state =>
      Decidable.decide (state.pipeline.puller.point = .yielding .high ∧
        state.backoffNum .high = 31)) = true := by
    decide +kernel
  rcases Runs.exists_of_any passed with ⟨after, ran, reached⟩
  rcases of_decide_eq_true reached with ⟨yielding, count⟩
  refine ⟨after, ran, fun bounded => ?_⟩
  have small := bounded.shift .high yielding
  omega

end Yielder
end Tx
end Thubo
