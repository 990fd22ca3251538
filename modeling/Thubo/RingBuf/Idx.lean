import Thubo.Protocol

/-!
# Packed ring indices

One word holds the indices of the four rings of a ring buffer, sixteen bits
for each priority.  The low byte of a lane is the index itself, which grows
and wraps around.
-/

namespace Thubo
namespace RingBuf

/-- The indices of all priorities in one word. -/
structure Idx where
  bits : BitVec 64
deriving DecidableEq, Repr

namespace Idx

/-- The bits of one lane. -/
def MASK : BitVec 64 := 0xFFFF

/-- The number of bits of a lane. -/
def BITS : Nat := 16

def new : Idx :=
  ⟨0⟩

def shift (priority : Priority) : Nat :=
  BITS * priority.toNat

/-- The index of a priority: the low byte of its lane. -/
def index (idx : Idx) (priority : Priority) : BitVec 8 :=
  (idx.bits >>> shift priority).setWidth 8

/-- Add one to the index of a priority. -/
def increment (idx : Idx) (priority : Priority) : Idx :=
  let shift := shift priority
  let mask := (0xFF : BitVec 64) <<< shift
  let v := (idx.index priority + 1).setWidth 64 <<< shift
  ⟨(idx.bits &&& ~~~mask) ||| v⟩

/-- `flag::prio` of the BOOKED flag. -/
def flag (priority : Priority) : BitVec 64 :=
  1 <<< (8 + shift priority)

/-- The lane of a priority. -/
def mask (priority : Priority) : BitVec 64 :=
  MASK <<< shift priority

def any (idx : Idx) (flag : BitVec 64) : Bool :=
  idx.bits &&& flag != 0

def set (idx : Idx) (flag : BitVec 64) : Idx :=
  ⟨idx.bits ||| flag⟩

def unset (idx : Idx) (flag : BitVec 64) : Idx :=
  ⟨idx.bits &&& ~~~flag⟩

/-- The value that `AtomicIdx::update` puts in place of an old one. -/
def merge (old : Idx) (priority : Priority) (idx : Idx) : Idx :=
  ⟨(old.bits &&& ~~~mask priority) ||| (idx.bits &&& mask priority)⟩

/-- The BOOKED flag of a priority. -/
def booked (idx : Idx) (priority : Priority) : Bool :=
  idx.any (flag priority)

/-! ## The bits of a lane -/

/-- Every lane lies within the word. -/
theorem shift_add_lt (priority : Priority) {i : Nat} (inside : i < 16) :
    shift priority + i < 64 := by
  cases priority <;> simp only [shift, BITS, Priority.toNat] <;> omega

/-- The lanes of two priorities do not meet. -/
theorem shift_apart {priority other : Priority}
    (distinct : other ≠ priority) :
    shift other + 16 ≤ shift priority ∨
      shift priority + 16 ≤ shift other := by
  cases priority <;> cases other <;>
    first
    | exact absurd rfl distinct
    | simp [shift, BITS, Priority.toNat]

/-- The low byte has its eight low bits set. -/
theorem getLsbD_byte (i : Nat) :
    (0xFF : BitVec 64).getLsbD i = decide (i < 8) := by
  by_cases inside : i < 64
  · revert inside
    revert i
    decide
  · rw [BitVec.getLsbD_of_ge _ _ (Nat.le_of_not_lt inside)]
    symm
    rw [decide_eq_false_iff_not]
    omega

theorem getLsbD_index (idx : Idx) (priority : Priority) (i : Nat) :
    (idx.index priority).getLsbD i =
      (decide (i < 8) && idx.bits.getLsbD (shift priority + i)) := by
  simp [index]

/-- Which bits of the word an increment sets. -/
theorem getLsbD_increment (idx : Idx) (priority : Priority) {i : Nat}
    (inside : i < 64) :
    (idx.increment priority).bits.getLsbD i =
      if shift priority ≤ i ∧ i < shift priority + 8 then
        (idx.index priority + 1).getLsbD (i - shift priority)
      else
        idx.bits.getLsbD i := by
  simp only [increment, BitVec.getLsbD_or, BitVec.getLsbD_and,
    BitVec.getLsbD_not, BitVec.getLsbD_shiftLeft, getLsbD_byte,
    BitVec.getLsbD_setWidth, inside, decide_true, Bool.true_and]
  by_cases before : i < shift priority
  · have outside : ¬ (shift priority ≤ i ∧ i < shift priority + 8) := by
      omega
    simp [before, outside]
  · by_cases within : i < shift priority + 8
    · have near : i - shift priority < 8 := by omega
      have far : i - shift priority < 64 := by omega
      have lane : shift priority ≤ i := by omega
      simp [before, within, near, far, lane]
    · have past : ¬ i - shift priority < 8 := by omega
      have outside : 8 ≤ i - shift priority := by omega
      simp [before, within, past,
        BitVec.getLsbD_of_ge _ _ outside]

@[simp]
theorem index_new (priority : Priority) : new.index priority = 0 := by
  simp [new, index]

/-- An increment changes the index of its priority only. -/
@[simp]
theorem index_increment (idx : Idx) (priority other : Priority) :
    (idx.increment priority).index other =
      if other = priority then
        idx.index priority + 1
      else
        idx.index other := by
  apply BitVec.eq_of_getLsbD_eq
  intro i inside
  rw [getLsbD_index, getLsbD_increment _ _
    (shift_add_lt other (Nat.lt_trans inside (by decide)))]
  by_cases same : other = priority
  · rw [same, if_pos rfl,
      if_pos ⟨Nat.le_add_right .., Nat.add_lt_add_left inside _⟩,
      Nat.add_sub_cancel_left]
    simp [inside]
  · have apart := shift_apart same
    rw [if_neg same, if_neg (by omega), getLsbD_index]

/-! ## Flags and words of several owners -/

theorem booked_eq (idx : Idx) (priority : Priority) :
    idx.booked priority = idx.bits.getLsbD (shift priority + 8) := by
  have one : flag priority = BitVec.twoPow 64 (shift priority + 8) := by
    rw [flag, Nat.add_comm]
    rfl
  have inside := shift_add_lt priority (i := 8) (by decide)
  rw [booked, any, one, BitVec.and_twoPow]
  cases idx.bits.getLsbD (shift priority + 8) with
  | false => rfl
  | true =>
      rw [if_pos rfl, bne_iff_ne]
      intro zero
      have bit := congrArg (BitVec.getLsbD · (shift priority + 8)) zero
      simp [inside] at bit

/-- Which bit a flag is. -/
theorem getLsbD_flag (priority : Priority) (i : Nat) :
    (flag priority).getLsbD i = decide (i = shift priority + 8) := by
  have inside := shift_add_lt priority (i := 8) (by decide)
  have one : flag priority = BitVec.twoPow 64 (shift priority + 8) := by
    rw [flag, Nat.add_comm]
    rfl
  rw [one, BitVec.getLsbD_twoPow, decide_eq_true inside, Bool.true_and]
  simp [eq_comm]

/-- Which bits a lane is. -/
theorem getLsbD_mask (priority : Priority) {i : Nat} (inside : i < 64) :
    (mask priority).getLsbD i =
      decide (shift priority ≤ i ∧ i < shift priority + 16) := by
  have low : ∀ j, (MASK.getLsbD j) = decide (j < 16) := by
    intro j
    by_cases small : j < 64
    · revert small
      revert j
      decide
    · rw [BitVec.getLsbD_of_ge _ _ (Nat.le_of_not_lt small)]
      symm
      rw [decide_eq_false_iff_not]
      omega
  rw [mask, BitVec.getLsbD_shiftLeft, low, decide_eq_true inside,
    Bool.eq_iff_iff]
  simp
  omega

/-- The lanes of two priorities have different flags. -/
theorem shift_eq_iff {priority other : Priority} :
    shift other + 8 = shift priority + 8 ↔ other = priority := by
  cases priority <;> cases other <;> simp [shift, BITS, Priority.toNat]

/-- The flag is in no index. -/
theorem shift_add_ne {priority other : Priority} {i : Nat}
    (inside : i < 8) : shift other + i ≠ shift priority + 8 := by
  cases priority <;> cases other <;>
    simp only [shift, BITS, Priority.toNat] <;> omega

@[simp]
theorem booked_new (priority : Priority) : new.booked priority = false := by
  rw [booked_eq]
  simp [new]

@[simp]
theorem booked_increment (idx : Idx) (priority other : Priority) :
    (idx.increment priority).booked other = idx.booked other := by
  rw [booked_eq, booked_eq,
    getLsbD_increment _ _ (shift_add_lt other (by decide)), if_neg]
  rintro ⟨low, high⟩
  have apart : shift priority + (shift other + 8 - shift priority) ≠
      shift other + 8 :=
    shift_add_ne (by omega)
  omega

@[simp]
theorem booked_set (idx : Idx) (priority other : Priority) :
    (idx.set (flag priority)).booked other =
      (idx.booked other || decide (other = priority)) := by
  rw [booked_eq, booked_eq, set, BitVec.getLsbD_or, getLsbD_flag]
  simp only [shift_eq_iff]

@[simp]
theorem index_set (idx : Idx) (priority other : Priority) :
    (idx.set (flag priority)).index other = idx.index other := by
  apply BitVec.eq_of_getLsbD_eq
  intro i inside
  rw [getLsbD_index, getLsbD_index, set, BitVec.getLsbD_or, getLsbD_flag,
    decide_eq_false (shift_add_ne inside), Bool.or_false]

@[simp]
theorem booked_unset (idx : Idx) (priority other : Priority) :
    (idx.unset (flag priority)).booked other =
      (idx.booked other && decide (other ≠ priority)) := by
  rw [booked_eq, booked_eq, unset, BitVec.getLsbD_and, BitVec.getLsbD_not,
    getLsbD_flag, decide_eq_true (shift_add_lt other (by decide)),
    Bool.true_and]
  simp only [shift_eq_iff, decide_not]

@[simp]
theorem index_unset (idx : Idx) (priority other : Priority) :
    (idx.unset (flag priority)).index other = idx.index other := by
  apply BitVec.eq_of_getLsbD_eq
  intro i inside
  rw [getLsbD_index, getLsbD_index, unset, BitVec.getLsbD_and,
    BitVec.getLsbD_not, getLsbD_flag, decide_eq_false (shift_add_ne inside),
    decide_eq_true (shift_add_lt other (Nat.lt_trans inside (by decide)))]
  simp

/-- Which bits a merged word has. -/
theorem getLsbD_merge (old idx : Idx) (priority : Priority) {i : Nat}
    (inside : i < 64) :
    (old.merge priority idx).bits.getLsbD i =
      if shift priority ≤ i ∧ i < shift priority + 16 then
        idx.bits.getLsbD i
      else
        old.bits.getLsbD i := by
  rw [merge, BitVec.getLsbD_or, BitVec.getLsbD_and, BitVec.getLsbD_and,
    BitVec.getLsbD_not, getLsbD_mask _ inside, decide_eq_true inside]
  split
  · rename_i within
    simp [within]
  · rename_i outside
    simp only [decide_eq_false outside, Bool.not_false, Bool.and_true,
      Bool.and_false, Bool.or_false]

/-- A merged word has one lane of its own. -/
theorem getLsbD_merge_lane (old idx : Idx) (priority other : Priority)
    {i : Nat} (inside : i < 16) :
    (old.merge priority idx).bits.getLsbD (shift other + i) =
      if other = priority then
        idx.bits.getLsbD (shift other + i)
      else
        old.bits.getLsbD (shift other + i) := by
  rw [getLsbD_merge _ _ _ (shift_add_lt other inside)]
  by_cases same : other = priority
  · rw [if_pos same, if_pos]
    rw [same]
    omega
  · have apart := shift_apart same
    rw [if_neg same, if_neg (by omega)]

@[simp]
theorem index_merge (old idx : Idx) (priority other : Priority) :
    (old.merge priority idx).index other =
      if other = priority then idx.index other else old.index other := by
  apply BitVec.eq_of_getLsbD_eq
  intro i inside
  rw [getLsbD_index, getLsbD_merge_lane _ _ _ _ (Nat.lt_trans inside
    (by decide))]
  split
  · rw [getLsbD_index]
  · rw [getLsbD_index]

@[simp]
theorem booked_merge (old idx : Idx) (priority other : Priority) :
    (old.merge priority idx).booked other =
      if other = priority then idx.booked other else old.booked other := by
  rw [booked_eq, getLsbD_merge_lane _ _ _ _ (by decide)]
  split
  · rw [booked_eq]
  · rw [booked_eq]

end Idx
end RingBuf
end Thubo
