import Mathlib.Algebra.Order.Ring.Nat
import Thubo.Lib.Cursor

/-!
# Chunks

A chunk is a window into a shared byte buffer.  The window stays inside the
buffer, so an out-of-range chunk cannot be built.  Range arguments are given
by their two bounds, and the arithmetic on them is the checked arithmetic of
a 64-bit `usize`.
-/

namespace Thubo

/-- `usize::MAX`. -/
def usizeMax : Nat :=
  2 ^ 64 - 1

/-- Addition of two `usize` values. -/
def checkedAdd (left right : Nat) : Except Fault Nat :=
  if left + right ≤ usizeMax then
    .ok (left + right)
  else
    .error .arithmetic

/-- Subtraction of two `usize` values. -/
def checkedSub (left right : Nat) : Except Fault Nat :=
  if right ≤ left then
    .ok (left - right)
  else
    .error .arithmetic

theorem checkedSub_of_le {left right : Nat} (ordered : right ≤ left) :
    checkedSub left right = .ok (left - right) :=
  if_pos ordered

@[simp]
theorem ok_bind {ε α β : Type} (value : α) (next : α → Except ε β) :
    ((Except.ok value : Except ε α) >>= next) = next value :=
  rfl

@[simp]
theorem error_bind {ε α β : Type} (error : ε) (next : α → Except ε β) :
    ((Except.error error : Except ε α) >>= next) = .error error :=
  rfl

/-- One end of a range. -/
inductive Bound where
  | included (index : Nat)
  | excluded (index : Nat)
  | unbounded
deriving DecidableEq, Repr

namespace Bound

/-- The offset at which a range with this start bound begins. -/
def startDelta : Bound → Except Fault Nat
  | .included index => .ok index
  | .excluded index => checkedAdd index 1
  | .unbounded => .ok 0

/-- The offset at which a range with this end bound stops. -/
def endDelta (len : Nat) : Bound → Except Fault Nat
  | .included index => checkedAdd index 1
  | .excluded index => .ok index
  | .unbounded => .ok len

end Bound

/-- A contiguous window `start..stop` of a byte buffer. -/
structure Chunk where
  buf : List UInt8
  start : Nat
  stop : Nat
  start_le : start ≤ stop
  stop_le : stop ≤ buf.length
deriving DecidableEq, Repr

namespace Chunk

/-- The whole of a buffer. -/
def ofBuf (buf : List UInt8) : Chunk :=
  ⟨buf, 0, buf.length, Nat.zero_le _, Nat.le_refl _⟩

/-- The length in bytes. -/
def len (chunk : Chunk) : Nat :=
  chunk.stop - chunk.start

def isEmpty (chunk : Chunk) : Bool :=
  chunk.len == 0

/-- The bytes in the window. -/
def asSlice (chunk : Chunk) : List UInt8 :=
  (chunk.buf.take chunk.stop).drop chunk.start

/-- A view into a subrange of this window, or nothing when out of bounds. -/
def view (chunk : Chunk) (lower upper : Bound) :
    Except Fault (Option Chunk) := do
  let startDelta ← lower.startDelta
  let endDelta ← upper.endDelta chunk.len
  if inside : startDelta ≤ endDelta ∧ endDelta ≤ chunk.len then
    return some
      { buf := chunk.buf
        start := chunk.start + startDelta
        stop := chunk.start + endDelta
        start_le := Nat.add_le_add_left inside.1 _
        stop_le := by
          have ordered := chunk.start_le
          have bounded := chunk.stop_le
          have inner := inside.2
          unfold len at inner
          omega }
  else
    -- the argument of `then_some` is evaluated before the test; inside the
    -- window its sums are at most the length of the buffer
    let _ ← checkedAdd chunk.start startDelta
    let _ ← checkedAdd chunk.start endDelta
    return none

@[simp]
theorem length_asSlice (chunk : Chunk) :
    chunk.asSlice.length = chunk.len := by
  have bounded := chunk.stop_le
  simp only [asSlice, len, List.length_drop, List.length_take]
  omega

@[simp]
theorem asSlice_ofBuf (buf : List UInt8) :
    (ofBuf buf).asSlice = buf := by
  simp [ofBuf, asSlice]

@[simp]
theorem len_ofBuf (buf : List UInt8) : (ofBuf buf).len = buf.length :=
  rfl

/-- A half-open view inside the window exists and is that slice. -/
theorem view_of_le (chunk : Chunk) (lower upper : Nat)
    (ordered : lower ≤ upper) (bounded : upper ≤ chunk.len) :
    ∃ result, chunk.view (.included lower) (.excluded upper) =
        .ok (some result) ∧
      result.asSlice = (chunk.asSlice.drop lower).take (upper - lower) ∧
      result.len = upper - lower := by
  refine ⟨_, dif_pos ⟨ordered, bounded⟩, ?_, ?_⟩
  · simp only [asSlice, List.drop_drop, List.take_drop, List.take_take]
    congr 2
    have stopLe := chunk.start_le
    unfold len at bounded
    omega
  · simp only [len]
    omega

/-- A view from an offset inside the window to its end. -/
theorem view_from (chunk : Chunk) {lower : Nat} (bounded : lower ≤ chunk.len) :
    ∃ result, chunk.view (.included lower) .unbounded =
        .ok (some result) ∧
      result.asSlice = chunk.asSlice.drop lower ∧
      result.len = chunk.len - lower := by
  obtain ⟨result, viewed, slice, length⟩ :=
    chunk.view_of_le lower chunk.len bounded (Nat.le_refl _)
  refine ⟨result, viewed, ?_, length⟩
  rw [slice]
  exact List.take_of_length_le (by simp)

end Chunk

end Thubo
