import Mathlib.Algebra.Order.Ring.Nat
import Mathlib.Data.Nat.ModEq

/-!
# Bounded queues with wrapping indices

A queue of at most `2 ^ k` elements lies in `2 ^ k` slots between two indices
that only grow and wrap around at `2 ^ width`.  The slot of an index is given
by its low bits.  An owner may work with a stale copy of the other index.
-/

namespace Thubo
namespace Lane

variable {α : Type} {width : Nat}

/-- The slot of an index. -/
def position (k : Nat) (index : BitVec width) : BitVec width :=
  index &&& BitVec.ofNat width (2 ^ k - 1)

/-- Change one slot. -/
def write (slots : BitVec width → Option α) (slot : BitVec width)
    (value : Option α) : BitVec width → Option α :=
  fun other => if other = slot then value else slots other

/-- The elements lie in the slots from an index on. -/
def Stored (k : Nat) (slots : BitVec width → Option α) :
    BitVec width → List α → Prop
  | _, [] => True
  | index, t :: rest =>
      slots (position k index) = some t ∧ Stored k slots (index + 1) rest

/-- The elements found in the slots from an index on. -/
def contents (k : Nat) (slots : BitVec width → Option α) :
    Nat → BitVec width → List α
  | 0, _ => []
  | count + 1, index =>
      (slots (position k index)).toList ++
        contents k slots count (index + 1)

/-! ## Indices -/

/-- A step of an index counts one. -/
theorem add_succ (index : BitVec width) (n : Nat) :
    index + 1 + BitVec.ofNat width n =
      index + BitVec.ofNat width (n + 1) := by
  rw [BitVec.add_assoc, BitVec.ofNat_add, BitVec.add_comm 1]
  rfl

theorem add_add (index : BitVec width) (m n : Nat) :
    index + BitVec.ofNat width m + BitVec.ofNat width n =
      index + BitVec.ofNat width (m + n) := by
  rw [BitVec.add_assoc, BitVec.ofNat_add]

/-- Two steps from one index to the same place. -/
theorem add_right_inj {index : BitVec width} {m n : Nat}
    (left : m < 2 ^ width) (right : n < 2 ^ width) :
    index + BitVec.ofNat width m = index + BitVec.ofNat width n ↔
      m = n := by
  constructor
  · intro same
    have numbers := congrArg BitVec.toNat ((BitVec.add_right_inj _).1 same)
    rwa [BitVec.toNat_ofNat, BitVec.toNat_ofNat, Nat.mod_eq_of_lt left,
      Nat.mod_eq_of_lt right] at numbers
  · intro same
    rw [same]

/-- The distance between an index and a later one. -/
theorem sub_eq (index : BitVec width) (n : Nat) :
    index + BitVec.ofNat width n - index = BitVec.ofNat width n := by
  rw [BitVec.add_comm, BitVec.add_sub_cancel]

theorem toNat_position {k : Nat} (narrow : k ≤ width)
    (index : BitVec width) :
    (position k index).toNat = index.toNat % 2 ^ k := by
  have small : 2 ^ k - 1 < 2 ^ width :=
    Nat.lt_of_lt_of_le (Nat.sub_lt (Nat.two_pow_pos k) Nat.one_pos)
      (Nat.pow_le_pow_right Nat.two_pos narrow)
  rw [position, BitVec.toNat_and, BitVec.toNat_ofNat,
    Nat.mod_eq_of_lt small, Nat.and_two_pow_sub_one_eq_mod]

/-- Fewer than `2 ^ k` steps from one index end in different slots. -/
theorem position_inj {k : Nat} (narrow : k ≤ width) {index : BitVec width}
    {m n : Nat} (left : m < 2 ^ k) (right : n < 2 ^ k)
    (same : position k (index + BitVec.ofNat width m) =
      position k (index + BitVec.ofNat width n)) : m = n := by
  have low : ∀ i, (position k (index + BitVec.ofNat width i)).toNat =
      (index.toNat + i) % 2 ^ k := by
    intro i
    rw [toNat_position narrow, BitVec.toNat_add, BitVec.toNat_ofNat,
      Nat.add_mod_mod,
      Nat.mod_mod_of_dvd _ (Nat.pow_dvd_pow 2 narrow)]
  have equal : index.toNat + m ≡ index.toNat + n [MOD 2 ^ k] := by
    have numbers := congrArg BitVec.toNat same
    rwa [low, low] at numbers
  have cancelled := Nat.ModEq.add_left_cancel' _ equal
  exact cancelled.eq_of_lt_of_lt left right

/-! ## Stored elements -/

theorem contents_eq {k : Nat} {slots : BitVec width → Option α}
    {index : BitVec width} {queue : List α}
    (stored : Stored k slots index queue) :
    contents k slots queue.length index = queue := by
  induction queue generalizing index with
  | nil => rfl
  | cons t rest hypothesis =>
      rw [List.length_cons, contents, stored.1, hypothesis stored.2]
      rfl

/-- Slots that agree where the elements lie store the same elements. -/
theorem Stored.frame {k : Nat} {slots other : BitVec width → Option α}
    {index : BitVec width} {queue : List α}
    (stored : Stored k slots index queue)
    (agree : ∀ i, i < queue.length →
      other (position k (index + BitVec.ofNat width i)) =
        slots (position k (index + BitVec.ofNat width i))) :
    Stored k other index queue := by
  induction queue generalizing index with
  | nil => trivial
  | cons t rest hypothesis =>
      constructor
      · have first := agree 0 (Nat.succ_pos _)
        rw [BitVec.add_zero] at first
        rw [first, stored.1]
      · apply hypothesis stored.2
        intro i inside
        rw [add_succ]
        exact agree (i + 1) (Nat.succ_lt_succ inside)

/-- One more element in the slot after the last one. -/
theorem Stored.concat {k : Nat} {slots : BitVec width → Option α}
    {index : BitVec width} {queue : List α}
    (stored : Stored k slots index queue) {t : α}
    (last : slots (position k
      (index + BitVec.ofNat width queue.length)) = some t) :
    Stored k slots index (queue ++ [t]) := by
  induction queue generalizing index with
  | nil =>
      rw [List.length_nil, BitVec.add_zero] at last
      exact ⟨last, trivial⟩
  | cons head rest hypothesis =>
      refine ⟨stored.1, hypothesis stored.2 ?_⟩
      rw [add_succ]
      exact last

/-! ## Queues between two indices -/

/-- The queue between the read index and the write index. -/
structure Holds (k : Nat) (slots : BitVec width → Option α)
    (read written : BitVec width) (queue : List α) : Prop where
  length_le : queue.length ≤ 2 ^ k
  written_eq : written = read + BitVec.ofNat width queue.length
  stored : Stored k slots read queue

/-- A copy of the write index that the reader has loaded before. -/
def Seen (read cached : BitVec width) (queue : List α) : Prop :=
  ∃ n ≤ queue.length, cached = read + BitVec.ofNat width n

/-- A copy of the read index that the writer has loaded before. -/
def Passed (k : Nat) (read cached : BitVec width) (queue : List α) :
    Prop :=
  ∃ n, n + queue.length ≤ 2 ^ k ∧ read = cached + BitVec.ofNat width n

variable {k : Nat} {slots : BitVec width → Option α}
variable {read written cached : BitVec width} {queue : List α}

/-- A count of elements fits an index. -/
theorem lt_of_le (narrow : k < width) {n : Nat} (few : n ≤ 2 ^ k) :
    n < 2 ^ width :=
  Nat.lt_of_le_of_lt few (Nat.pow_lt_pow_right Nat.one_lt_two narrow)

theorem Holds.new (slots : BitVec width → Option α) :
    Holds k slots 0 0 [] where
  length_le := Nat.zero_le _
  written_eq := by simp
  stored := trivial

theorem Holds.contents_eq (holds : Holds k slots read written queue)
    (narrow : k < width) :
    contents k slots (written - read).toNat read = queue := by
  rw [holds.written_eq, sub_eq, BitVec.toNat_ofNat,
    Nat.mod_eq_of_lt (lt_of_le narrow holds.length_le)]
  exact Lane.contents_eq holds.stored

/-- The elements lie between the indices and nowhere else. -/
theorem Holds.empty_iff (holds : Holds k slots read written queue)
    (narrow : k < width) : read = written ↔ queue = [] := by
  have zero := @add_right_inj width read _ _ (Nat.two_pow_pos width)
    (lt_of_le narrow holds.length_le)
  rw [BitVec.add_zero, ← holds.written_eq] at zero
  rw [zero, eq_comm, List.length_eq_zero_iff]

/-- The current write index is a copy of itself. -/
theorem Holds.seen (holds : Holds k slots read written queue) :
    Seen read written queue :=
  ⟨queue.length, Nat.le_refl _, holds.written_eq⟩

/-- The current read index is a copy of itself. -/
theorem Holds.passed (holds : Holds k slots read written queue) :
    Passed k read read queue :=
  ⟨0, by simpa using holds.length_le, by simp⟩

/-- A copy that differs from the read index shows an element. -/
theorem Seen.nonempty (seen : Seen read cached queue)
    (differs : read ≠ cached) : queue ≠ [] := by
  rcases seen with ⟨n, few, rfl⟩
  rintro rfl
  cases Nat.le_zero.1 few
  exact differs (by simp)

/-- A stale copy of the read index shows room only where there is room. -/
theorem Passed.room (passed : Passed k read cached queue)
    (holds : Holds k slots read written queue)
    (differs : written - cached ≠ BitVec.ofNat width (2 ^ k)) :
    queue.length < 2 ^ k := by
  rcases passed with ⟨n, few, rfl⟩
  apply Nat.lt_of_le_of_ne holds.length_le
  intro full
  have none_ : n = 0 := by omega
  apply differs
  rw [holds.written_eq, none_, full, BitVec.add_zero,
    sub_eq]

/-! ## The operations -/

/-- An element is written after the last one. -/
theorem Holds.put (holds : Holds k slots read written queue)
    (narrow : k < width) (room : queue.length < 2 ^ k) (t : α) :
    Holds k (write slots (position k written) (some t)) read (written + 1)
      (queue ++ [t]) where
  length_le := by
    rw [List.length_append]
    exact room
  written_eq := by
    rw [holds.written_eq, List.length_append, List.length_singleton,
      ← add_add]
    rfl
  stored := by
    have kept : Stored k (write slots (position k written) (some t)) read
        queue := by
      apply holds.stored.frame
      intro i inside
      apply if_neg
      intro same
      rw [holds.written_eq] at same
      have equal := position_inj (Nat.le_of_lt narrow)
        (Nat.lt_trans inside room) room same
      exact absurd equal (Nat.ne_of_lt inside)
    apply kept.concat
    rw [← holds.written_eq]
    exact if_pos rfl

/-- The first element. -/
theorem Holds.head {t : α} {rest : List α}
    (holds : Holds k slots read written (t :: rest)) :
    slots (position k read) = some t :=
  holds.stored.1

/-- Only the slot of the first element changes. -/
theorem Holds.frame_tail {t : α} {rest : List α}
    (holds : Holds k slots read written (t :: rest))
    (narrow : k < width) (value : Option α) :
    Stored k (write slots (position k read) value) (read + 1) rest := by
  apply holds.stored.2.frame
  intro i inside
  apply if_neg
  intro same
  have bound := holds.length_le
  rw [List.length_cons] at bound
  have start : read = read + BitVec.ofNat width 0 := by simp
  rw [add_succ] at same
  nth_rewrite 2 [start] at same
  have equal := position_inj (Nat.le_of_lt narrow) (by omega)
    (Nat.two_pow_pos k) same
  omega

/-- The first element is taken out. -/
theorem Holds.take {t : α} {rest : List α}
    (holds : Holds k slots read written (t :: rest))
    (narrow : k < width) :
    Holds k (write slots (position k read) none) (read + 1) written
      rest where
  length_le := Nat.le_of_succ_le holds.length_le
  written_eq := by
    rw [holds.written_eq, add_succ, List.length_cons]
  stored := holds.frame_tail narrow none

/-- The first element is changed in place. -/
theorem Holds.replace {t : α} {rest : List α}
    (holds : Holds k slots read written (t :: rest))
    (narrow : k < width) (changed : α) :
    Holds k (write slots (position k read) (some changed)) read written
      (changed :: rest) where
  length_le := holds.length_le
  written_eq := holds.written_eq
  stored := ⟨if_pos rfl, holds.frame_tail narrow _⟩

theorem Seen.put (seen : Seen read cached queue) (t : α) :
    Seen read cached (queue ++ [t]) := by
  rcases seen with ⟨n, few, same⟩
  refine ⟨n, ?_, same⟩
  rw [List.length_append]
  omega

/-- A copy that shows an element still does so after it is taken. -/
theorem Seen.take {t : α} {rest : List α}
    (seen : Seen read cached (t :: rest)) (differs : read ≠ cached) :
    Seen (read + 1) cached rest := by
  rcases seen with ⟨n, few, rfl⟩
  cases n with
  | zero => exact absurd (by simp) differs
  | succ n =>
      exact ⟨n, Nat.le_of_succ_le_succ few, (add_succ read n).symm⟩

theorem Seen.replace {t : α} {rest : List α}
    (seen : Seen read cached (t :: rest)) (changed : α) :
    Seen read cached (changed :: rest) :=
  seen

theorem Passed.replace {t : α} {rest : List α}
    (passed : Passed k read cached (t :: rest)) (changed : α) :
    Passed k read cached (changed :: rest) :=
  passed

theorem Passed.put (passed : Passed k read cached queue)
    (differs : written - cached ≠ BitVec.ofNat width (2 ^ k))
    (holds : Holds k slots read written queue) (t : α) :
    Passed k read cached (queue ++ [t]) := by
  rcases passed with ⟨n, few, rfl⟩
  refine ⟨n, ?_, rfl⟩
  rw [List.length_append, List.length_singleton]
  rcases Nat.lt_or_eq_of_le few with fewer | full
  · omega
  · exfalso
    apply differs
    rw [holds.written_eq, add_add, full, sub_eq]

theorem Passed.take {t : α} {rest : List α}
    (passed : Passed k read cached (t :: rest)) :
    Passed k (read + 1) cached rest := by
  rcases passed with ⟨n, few, rfl⟩
  refine ⟨n + 1, ?_, ?_⟩
  · rw [List.length_cons] at few
    omega
  · rw [← add_add]
    rfl

end Lane
end Thubo
