import Thubo.Lib.Runs
import Thubo.Pipeline.Pool

/-!
# The refill stage and its counter

The refill stage takes recycled batches from its ring and creates new ones
while there are any left.  The step that creates a batch stands in the
argument of a combinator, so it runs before its guard is looked at: a pull
that finds nothing counts a batch that nobody receives.

A pull reads the ring once, so it is one step here.
-/

namespace Thubo
namespace Tx

/-- The refill stage with the ring that it is refilled through. -/
structure StageRefill where
  /-- The batches given back, oldest first. -/
  ring : List WriteBatch
  /-- Capacity of the ring. -/
  rbCapacity : Nat
  capacity : Nat
  allocated : Nat
  batchSize : Nat
  /-- The number of batches that have been created. -/
  created : Nat
  /-- The number of new batches that `pull` has handed out. -/
  issued : Nat
deriving DecidableEq, Repr

namespace StageRefill

def new (capacity batchSize : Nat) : StageRefill :=
  ⟨[], Tx.rbCapacity capacity, capacity, 0, batchSize, 0, 0⟩

/--
A recycled batch, or a new one while there are some left.  The argument of
`then_some` is evaluated in either case.
-/
def pull (stage : StageRefill) : Option WriteBatch × StageRefill :=
  match stage.ring with
  | batch :: ring => (some batch, { stage with ring := ring })
  | [] =>
      let least := stage.allocated < stage.capacity
      let batch := WriteBatch.alloc stage.batchSize
      let counted :=
        { stage with
          allocated := stage.allocated + 1
          created := stage.created + 1 }
      if least then
        (some batch, { counted with issued := counted.issued + 1 })
      else
        (none, counted)

/-- `StageOut::refill`; a ring without room gives the batch back. -/
def refill (stage : StageRefill) (batch : WriteBatch) : StageRefill :=
  if stage.ring.length = stage.rbCapacity then
    stage
  else
    { stage with ring := stage.ring ++ [batch.clear] }

/-- What can happen to the stage. -/
inductive Action where
  | pull
  | refill (batch : WriteBatch)

/-- One step, which is always possible. -/
def step (stage : StageRefill) : Action → Option StageRefill
  | .pull => some stage.pull.2
  | .refill batch => some (stage.refill batch)

/-! ## What the counter counts -/

/-- The counter is the number of new batches handed out. -/
structure Balanced (stage : StageRefill) : Prop where
  allocated_eq : stage.allocated = stage.issued
  allocated_le : stage.allocated ≤ stage.capacity

/-- A step keeps the counter right, and a pull without a batch is none. -/
def Accounts (stage : StageRefill) : Action → Prop
  | .pull =>
      stage.pull.2.Balanced ∧ (stage.pull.1 = none → stage.pull.2 = stage)
  | .refill batch => (stage.refill batch).Balanced

/-- A pull finds a recycled batch or one left to create. -/
def Supplied (stage : StageRefill) : Action → Prop
  | .pull => stage.ring ≠ [] ∨ stage.allocated < stage.capacity
  | .refill _ => True

instance : DecidableRel Supplied
  | stage, .pull =>
      inferInstanceAs
        (Decidable (stage.ring ≠ [] ∨ stage.allocated < stage.capacity))
  | _, .refill _ => .isTrue trivial

variable {stage : StageRefill}

theorem pull_recycled {batch : WriteBatch} {ring : List WriteBatch}
    (recycled : stage.ring = batch :: ring) :
    stage.pull = (some batch, { stage with ring := ring }) := by
  rw [pull, recycled]

theorem pull_new (dry : stage.ring = [])
    (least : stage.allocated < stage.capacity) :
    stage.pull =
      (some (WriteBatch.alloc stage.batchSize),
        { stage with
          allocated := stage.allocated + 1
          created := stage.created + 1
          issued := stage.issued + 1 }) := by
  rw [pull, dry]
  exact if_pos least

theorem pull_nothing (dry : stage.ring = [])
    (spent : ¬ stage.allocated < stage.capacity) :
    stage.pull =
      (none,
        { stage with
          allocated := stage.allocated + 1
          created := stage.created + 1 }) := by
  rw [pull, dry]
  exact if_neg spent

/-- A refill changes the ring only. -/
theorem Balanced.refill (balanced : stage.Balanced) (batch : WriteBatch) :
    (stage.refill batch).Balanced := by
  unfold StageRefill.refill
  split
  · exact balanced
  · exact ⟨balanced.allocated_eq, balanced.allocated_le⟩

/-- A pull keeps the counter right exactly when it returns a batch. -/
theorem Balanced.account_iff (balanced : stage.Balanced)
    (action : Action) : stage.Accounts action ↔ stage.Supplied action := by
  cases action with
  | refill batch => exact ⟨fun _ => trivial, fun _ => balanced.refill batch⟩
  | pull =>
      cases recycled : stage.ring with
      | cons batch ring =>
          constructor
          · intro accounts
            exact Or.inl (by simp [recycled])
          · intro supplied
            rw [Accounts, pull_recycled recycled]
            exact ⟨⟨balanced.allocated_eq, balanced.allocated_le⟩,
              fun impossible => by cases impossible⟩
      | nil =>
          by_cases least : stage.allocated < stage.capacity
          · constructor
            · intro accounts
              exact Or.inr least
            · intro supplied
              rw [Accounts, pull_new recycled least]
              exact ⟨⟨congrArg (· + 1) balanced.allocated_eq, least⟩,
                fun impossible => by cases impossible⟩
          · constructor
            · intro accounts
              rw [Accounts, pull_nothing recycled least] at accounts
              exact absurd accounts.1.allocated_le (by
                simp only
                omega)
            · rintro (ring | left)
              · exact absurd recycled ring
              · exact absurd left least

/-- A step that accounts leaves the counter right. -/
theorem Accounts.balanced {action : Action} {after : StageRefill}
    (accounts : stage.Accounts action)
    (stepped : stage.step action = some after) : after.Balanced := by
  cases action with
  | pull =>
      cases stepped
      exact accounts.1
  | refill batch =>
      cases stepped
      exact accounts

theorem balanced_new (capacity batchSize : Nat) :
    (new capacity batchSize).Balanced :=
  ⟨rfl, Nat.zero_le _⟩

/--
The counter is right after every step of a run, and every pull without a
batch leaves the stage alone, exactly when no pull is without a batch.
-/
theorem accounts_iff (capacity batchSize : Nat) (actions : List Action) :
    Runs.Guarded step Accounts (new capacity batchSize) actions ↔
      Runs.Guarded step Supplied (new capacity batchSize) actions := by
  apply Runs.guarded_congr
  · exact fun stage action (balanced : stage.Balanced) =>
      balanced.account_iff action
  · exact fun stage action after _ accounts => accounts.balanced
  · exact balanced_new capacity batchSize

/-- A second pull finds nothing and counts one batch too many. -/
theorem second_pull_not_accounted :
    ¬ Runs.Guarded step Accounts (new 1 100) [.pull, .pull] := by
  rintro ⟨_, ⟨balanced, _⟩, _⟩
  exact absurd balanced.allocated_le (by decide)

/-! ## The counter of every run -/

/-- The counter counts the batches created, of which some are handed out. -/
structure Counted (stage : StageRefill) : Prop where
  created_eq : stage.created = stage.allocated
  issued_eq : stage.issued = min stage.allocated stage.capacity

theorem Counted.step (counted : stage.Counted) {action : Action}
    {after : StageRefill} (stepped : stage.step action = some after) :
    after.Counted ∧ after.capacity = stage.capacity := by
  rcases counted with ⟨created, issued⟩
  cases action with
  | refill batch =>
      cases stepped
      unfold StageRefill.refill
      split <;> exact ⟨⟨created, issued⟩, rfl⟩
  | pull =>
      cases stepped
      cases recycled : stage.ring with
      | cons batch ring =>
          rw [pull_recycled recycled]
          exact ⟨⟨created, issued⟩, rfl⟩
      | nil =>
          by_cases least : stage.allocated < stage.capacity
          · rw [pull_new recycled least]
            refine ⟨⟨congrArg (· + 1) created, ?_⟩, rfl⟩
            simp only
            omega
          · rw [pull_nothing recycled least]
            refine ⟨⟨congrArg (· + 1) created, ?_⟩, rfl⟩
            simp only
            omega

/-- No more batches are handed out than there is capacity for. -/
theorem issued_le_of_run {capacity batchSize : Nat} {actions : List Action}
    (ran : Runs.run StageRefill.step (new capacity batchSize) actions =
      some stage) :
    stage.created = stage.allocated ∧ stage.issued ≤ capacity := by
  have keeps : ∀ before action after,
      (before.Counted ∧ before.capacity = capacity) →
        StageRefill.step before action = some after →
          after.Counted ∧ after.capacity = capacity := by
    rintro before action after ⟨counted, same⟩ stepped
    rcases counted.step stepped with ⟨later, kept⟩
    exact ⟨later, kept.trans same⟩
  rcases Runs.invariant_of_step keeps ⟨⟨rfl, (Nat.zero_min _).symm⟩, rfl⟩
    ran with ⟨counted, same⟩
  refine ⟨counted.created_eq, ?_⟩
  rw [counted.issued_eq, same]
  exact Nat.min_le_right ..

end StageRefill

/-! ## The refill stage of a pool -/

namespace Pool

/-- The refill stage among the batches of a priority. -/
def stageRefill (pool : Pool) (batchSize created : Nat) : StageRefill where
  ring := pool.refill.map Slot.batch
  rbCapacity := pool.rbCapacity
  capacity := pool.capacity
  allocated := pool.allocated
  batchSize := batchSize
  created := created
  issued := pool.created

variable {pool after : Pool}

/-- A pool takes a recycled batch as the refill stage does. -/
theorem popRefill_pull (batchSize created : Nat)
    (popped : pool.popRefill = some after) :
    ((pool.stageRefill batchSize created).pull).2 =
      after.stageRefill batchSize created := by
  rcases popRefill_eq popped with ⟨slot, recycled, free, same⟩
  have ring : (pool.stageRefill batchSize created).ring =
      slot.batch :: after.refill.map Slot.batch := by
    rw [stageRefill, recycled, List.map_cons]
  rw [StageRefill.pull_recycled ring, same]
  rfl

/-- A pool without a recycled batch creates one as the stage does. -/
theorem allocate_pull (batchSize created : Nat) (dry : pool.refill = [])
    (free : pool.spare = none) :
    ((pool.stageRefill batchSize created).pull).2 =
      pool.allocate.stageRefill batchSize (created + 1) := by
  have ring : (pool.stageRefill batchSize created).ring = [] := by
    rw [stageRefill, dry, List.map_nil]
  by_cases least : pool.allocated < pool.capacity
  · rw [StageRefill.pull_new ring least, allocate, if_pos ⟨least, free⟩]
    rfl
  · rw [StageRefill.pull_nothing ring least, allocate,
      if_neg fun both => least both.1]
    rfl

/-- A pool takes a batch back as the refill stage does. -/
theorem put_refill {slot : Slot} (batchSize created : Nat)
    (room : pool.refillFull = false)
    (put : pool.put slot = some after) :
    (pool.stageRefill batchSize created).refill slot.batch =
      after.stageRefill batchSize created := by
  rcases put_eq put with ⟨held, rfl⟩
  have free : pool.refill.length ≠ pool.rbCapacity :=
    beq_eq_false_iff_ne.1 room
  rw [StageRefill.refill, if_neg]
  · simp only [stageRefill, List.map_append, List.map_cons, List.map_nil]
  · rw [stageRefill, List.length_map]
    exact free

end Pool
end Tx
end Thubo
