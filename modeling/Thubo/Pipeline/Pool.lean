import Mathlib.Data.Nat.Log
import Thubo.Pipeline.Stage

/-!
# The batches of one priority

The batches of a priority go round: the refill stage creates a batch or takes
a recycled one, a push books it, commits it to the ring, the puller takes it
out of the ring, and gives it back to the refill ring in the end.  A batch is
known by the number under which it was created.

Every batch created is in exactly one of these places, and no more batches
than the capacity are created, so neither ring is full when a batch is added.
-/

namespace Thubo
namespace Tx

/-- A batch and its number. -/
structure Slot where
  id : Nat
  batch : WriteBatch
deriving DecidableEq, Repr

/-- `usize::next_power_of_two`. -/
def nextPowerOfTwo (capacity : Nat) : Nat :=
  2 ^ Nat.clog 2 capacity

/-- The capacity of both rings. -/
def rbCapacity (capacity : Nat) : Nat :=
  if capacity ≠ 0 ∧ capacity &&& (capacity - 1) = 0 then
    capacity
  else
    nextPowerOfTwo capacity

theorem le_rbCapacity (capacity : Nat) :
    capacity ≤ rbCapacity capacity := by
  unfold rbCapacity
  split
  · exact Nat.le_refl _
  · exact Nat.le_pow_clog (by decide) capacity

/-- Where the batches of a priority are. -/
structure Pool where
  /-- Capacity of the rings. -/
  rbCapacity : Nat
  /-- Maximum number of batches that can be allocated. -/
  capacity : Nat
  /-- `allocated` of the refill stage. -/
  allocated : Nat
  /-- The number of batches that the refill stage has handed out newly. -/
  created : Nat
  /-- The refill ring, oldest first. -/
  refill : List Slot
  /-- Taken from the refill stage and not booked yet. -/
  spare : Option Nat
  /-- The booked slot of the in-out ring. -/
  booked : Option Nat
  /-- Committed to the in-out ring, oldest first. -/
  ring : List Slot
  /-- Taken out of the in-out ring and being inspected. -/
  hand : Option Slot
  /-- Inspected and not yet given back. -/
  held : List Slot
deriving DecidableEq, Repr

namespace Pool

def new (capacity : Nat) : Pool :=
  ⟨Tx.rbCapacity capacity, capacity, 0, 0, [], none, none, [], none, []⟩

/-- `StageRefill::pull` finds a recycled batch. -/
def popRefill (pool : Pool) : Option Pool :=
  match pool.refill, pool.spare with
  | slot :: refill, none =>
      some { pool with refill := refill, spare := some slot.id }
  | _, _ => none

/--
`StageRefill::pull` finds no recycled batch.  The argument of `then_some` is
evaluated, and the counter incremented, whether or not there is a batch left.
-/
def allocate (pool : Pool) : Pool :=
  if pool.allocated < pool.capacity ∧ pool.spare = none then
    { pool with
      allocated := pool.allocated + 1
      created := pool.created + 1
      spare := some pool.created }
  else
    { pool with allocated := pool.allocated + 1 }

/-- The in-out ring has no slot left. -/
def isFull (pool : Pool) : Bool :=
  pool.ring.length == pool.rbCapacity

/-- `RingBufferWriter::book` on a ring that has room. -/
def book (pool : Pool) : Option Pool :=
  match pool.spare, pool.booked with
  | some id, none => some { pool with spare := none, booked := some id }
  | _, _ => none

/-- The ring gives a batch back that is about to be booked. -/
def refuses (pool : Pool) : Bool :=
  pool.booked.isSome || pool.isFull

/-- `RingBufferWriter::book` gives the batch back and it is dropped. -/
def lose (pool : Pool) : Pool :=
  { pool with spare := none }

/-- `WriterPeek::commit` of the booked batch. -/
def commit (pool : Pool) (batch : WriteBatch) : Option Pool :=
  match pool.booked with
  | some id =>
      some
        { pool with
          booked := none
          ring := pool.ring ++ [⟨id, batch⟩] }
  | none => none

/-- The oldest batch is taken out of the in-out ring. -/
def take (pool : Pool) : Option Pool :=
  match pool.ring, pool.hand with
  | slot :: ring, none => some { pool with ring := ring, hand := some slot }
  | _, _ => none

/-- The inspection of a batch ends. -/
def keep (pool : Pool) : Option Pool :=
  match pool.hand with
  | some slot =>
      some { pool with hand := none, held := pool.held ++ [slot] }
  | none => none

/-- The refill ring has no slot left. -/
def refillFull (pool : Pool) : Bool :=
  pool.refill.length == pool.rbCapacity

/-- `RingBufferWriter::push` of a cleared batch on the refill ring. -/
def put (pool : Pool) (slot : Slot) : Option Pool :=
  if slot ∈ pool.held then
    some
      { pool with
        held := pool.held.erase slot
        refill := pool.refill ++ [{ slot with batch := slot.batch.clear }] }
  else
    none

/-- The refill ring gives the batch back and it is dropped. -/
def reject (pool : Pool) (slot : Slot) : Option Pool :=
  if slot ∈ pool.held ∧ pool.refillFull then
    some { pool with held := pool.held.erase slot }
  else
    none

/-! ## What the operations do -/

section

variable {pool after : Pool}

theorem popRefill_eq (popped : pool.popRefill = some after) :
    ∃ slot, pool.refill = slot :: after.refill ∧ pool.spare = none ∧
      after =
        { pool with refill := after.refill, spare := some slot.id } := by
  unfold popRefill at popped
  split at popped
  · rename_i slot refill recycled free
    cases popped
    exact ⟨slot, recycled, free, rfl⟩
  · cases popped

theorem book_eq (booked : pool.book = some after) :
    ∃ id, pool.spare = some id ∧ pool.booked = none ∧
      after = { pool with spare := none, booked := some id } := by
  unfold book at booked
  split at booked
  · rename_i id taken free
    cases booked
    exact ⟨id, taken, free, rfl⟩
  · cases booked

theorem commit_eq {batch : WriteBatch}
    (committed : pool.commit batch = some after) :
    ∃ id, pool.booked = some id ∧
      after =
        { pool with
          booked := none
          ring := pool.ring ++ [⟨id, batch⟩] } := by
  unfold commit at committed
  split at committed
  · rename_i id taken
    cases committed
    exact ⟨id, taken, rfl⟩
  · cases committed

theorem take_eq (taken : pool.take = some after) :
    ∃ slot, pool.ring = slot :: after.ring ∧ pool.hand = none ∧
      after = { pool with ring := after.ring, hand := some slot } := by
  unfold take at taken
  split at taken
  · rename_i slot ring first free
    cases taken
    exact ⟨slot, first, free, rfl⟩
  · cases taken

theorem keep_eq (kept : pool.keep = some after) :
    ∃ slot, pool.hand = some slot ∧
      after =
        { pool with hand := none, held := pool.held ++ [slot] } := by
  unfold keep at kept
  split at kept
  · rename_i slot inspected
    cases kept
    exact ⟨slot, inspected, rfl⟩
  · cases kept

theorem put_eq {slot : Slot} (put : pool.put slot = some after) :
    slot ∈ pool.held ∧
      after =
        { pool with
          held := pool.held.erase slot
          refill :=
            pool.refill ++ [{ slot with batch := slot.batch.clear }] } := by
  unfold Pool.put at put
  split at put
  · rename_i held
    cases put
    exact ⟨held, rfl⟩
  · cases put

end

/-! ## Every batch is in one place -/

/-- The numbers of all batches, place by place. -/
def places (pool : Pool) : List Nat :=
  pool.spare.toList ++ pool.booked.toList ++ pool.ring.map Slot.id ++
    pool.hand.toList.map Slot.id ++ pool.held.map Slot.id ++
    pool.refill.map Slot.id

/--
The batches created are numbered from zero, each is in one place, and there
are at most `capacity` of them.
-/
structure Conserved (pool : Pool) : Prop where
  placed : pool.places.Perm (List.range pool.created)
  created_le : pool.created ≤ pool.capacity
  created_le_allocated : pool.created ≤ pool.allocated
  capacity_le : pool.capacity ≤ pool.rbCapacity

theorem conserved_new (capacity : Nat) : (new capacity).Conserved where
  placed := List.Perm.refl _
  created_le := Nat.zero_le _
  created_le_allocated := Nat.zero_le _
  capacity_le := le_rbCapacity capacity

variable {pool after : Pool}

/-- A batch that changes its place. -/
theorem Conserved.move (conserved : pool.Conserved)
    (placed : after.places.Perm pool.places)
    (created : after.created = pool.created)
    (capacity : after.capacity = pool.capacity)
    (allocated : after.allocated = pool.allocated)
    (rbCapacity : after.rbCapacity = pool.rbCapacity) :
    after.Conserved where
  placed := by
    rw [created]
    exact placed.trans conserved.placed
  created_le := by
    rw [created, capacity]
    exact conserved.created_le
  created_le_allocated := by
    rw [created, allocated]
    exact conserved.created_le_allocated
  capacity_le := by
    rw [capacity, rbCapacity]
    exact conserved.capacity_le

theorem Conserved.popRefill (conserved : pool.Conserved)
    (popped : pool.popRefill = some after) : after.Conserved := by
  rcases popRefill_eq popped with ⟨slot, recycled, free, same⟩
  rw [same]
  refine conserved.move ?_ rfl rfl rfl rfl
  rw [List.perm_iff_count]
  intro id
  simp only [places, recycled, free, List.count_append, List.map_cons,
    List.count_cons, Option.toList_some, Option.toList_none,
    List.count_nil]
  omega

theorem Conserved.allocate (conserved : pool.Conserved) :
    pool.allocate.Conserved := by
  unfold Pool.allocate
  have le := conserved.created_le_allocated
  split
  · rename_i least
    refine ⟨?_, ?_, Nat.succ_le_succ le, conserved.capacity_le⟩
    · have placed := conserved.placed
      rw [List.perm_iff_count] at placed ⊢
      intro id
      have old := placed id
      simp only [places, least.2, List.count_append, Option.toList_some,
        Option.toList_none, List.count_nil, List.range_succ] at old ⊢
      omega
    · exact Nat.lt_of_le_of_lt le least.1
  · exact ⟨conserved.placed, conserved.created_le, Nat.le_succ_of_le le,
      conserved.capacity_le⟩

theorem Conserved.book (conserved : pool.Conserved)
    (booked : pool.book = some after) : after.Conserved := by
  rcases book_eq booked with ⟨id, taken, free, rfl⟩
  refine conserved.move ?_ rfl rfl rfl rfl
  rw [List.perm_iff_count]
  intro id
  simp only [places, taken, free, List.count_append, Option.toList_some,
    Option.toList_none, List.count_nil]
  omega

theorem Conserved.commit (conserved : pool.Conserved) {batch : WriteBatch}
    (committed : pool.commit batch = some after) : after.Conserved := by
  rcases commit_eq committed with ⟨id, taken, rfl⟩
  refine conserved.move ?_ rfl rfl rfl rfl
  rw [List.perm_iff_count]
  intro id
  simp only [places, taken, List.count_append, List.map_append,
    List.map_cons, List.map_nil, Option.toList_some, Option.toList_none,
    List.count_nil]
  omega

theorem Conserved.take (conserved : pool.Conserved)
    (taken : pool.take = some after) : after.Conserved := by
  rcases take_eq taken with ⟨slot, first, free, same⟩
  rw [same]
  refine conserved.move ?_ rfl rfl rfl rfl
  rw [List.perm_iff_count]
  intro id
  simp only [places, first, free, List.count_append, List.map_cons,
    List.map_nil, List.count_cons, Option.toList_some,
    Option.toList_none, List.count_nil]
  omega

theorem Conserved.keep (conserved : pool.Conserved)
    (kept : pool.keep = some after) : after.Conserved := by
  rcases keep_eq kept with ⟨slot, inspected, rfl⟩
  refine conserved.move ?_ rfl rfl rfl rfl
  rw [List.perm_iff_count]
  intro id
  simp only [places, inspected, List.count_append, List.map_append,
    List.map_cons, List.map_nil, Option.toList_some, Option.toList_none,
    List.count_nil]
  omega

theorem Conserved.put (conserved : pool.Conserved) {slot : Slot}
    (put : pool.put slot = some after) : after.Conserved := by
  rcases put_eq put with ⟨held, rfl⟩
  · refine conserved.move ?_ rfl rfl rfl rfl
    have split := (List.perm_cons_erase held).map Slot.id
    rw [List.perm_iff_count] at split ⊢
    intro id
    have here := split id
    simp only [places, List.count_append, List.map_append, List.map_cons,
      List.map_nil, List.count_cons, List.count_nil] at here ⊢
    omega

/-! ## Room in the rings -/

/-- All batches together. -/
theorem Conserved.length_le (conserved : pool.Conserved) :
    pool.places.length ≤ pool.rbCapacity := by
  rw [conserved.placed.length_eq, List.length_range]
  exact conserved.created_le.trans conserved.capacity_le

/-- The in-out ring has room for a batch that is about to be booked. -/
theorem Conserved.ring_lt (conserved : pool.Conserved) {id : Nat}
    (spare : pool.spare = some id) :
    pool.ring.length < pool.rbCapacity := by
  have all := conserved.length_le
  simp only [places, spare, List.length_append, List.length_map,
    Option.toList_some, List.length_singleton] at all
  omega

/-- The refill ring has room for a batch that is about to be given back. -/
theorem Conserved.refill_lt (conserved : pool.Conserved) {slot : Slot}
    (held : slot ∈ pool.held) : pool.refill.length < pool.rbCapacity := by
  have all := conserved.length_le
  have positive := List.length_pos_of_mem held
  simp only [places, List.length_append, List.length_map] at all
  omega

/-- The refill ring never gives a batch back. -/
theorem Conserved.reject_eq_none (conserved : pool.Conserved)
    (slot : Slot) : pool.reject slot = none := by
  apply if_neg
  rintro ⟨held, full⟩
  have room := conserved.refill_lt held
  rw [refillFull, beq_iff_eq] at full
  omega

/-- Every batch created is in exactly one place. -/
theorem Conserved.count_places (conserved : pool.Conserved) (id : Nat) :
    pool.places.count id = if id < pool.created then 1 else 0 := by
  rw [(List.perm_iff_count.1 conserved.placed) id, List.nodup_range.count]
  simp only [List.mem_range]

end Pool
end Tx
end Thubo
