import Thubo.Buffers.Chunk

/-!
# Fixed-capacity buffers and their writer

A boxed buffer holds at most its capacity.  A write that does not fit fails
and may leave the part of a longer encoding that did fit; the caller marks
the position first and rewinds to it.
-/

namespace Thubo

/-- Writing into a buffer. -/
class Writer (W : Type) where
  /-- The number of bytes that can still be written. -/
  remaining : W → Nat
  /-- Write all the bytes. -/
  writeExact (bytes : List UInt8) : Cursor W Unit
  /-- Write a single byte. -/
  writeU8 (byte : UInt8) : Cursor W Unit := writeExact [byte]
  /-- Write the contents of a chunk. -/
  writeChunk (slice : Chunk) : Cursor W Unit := writeExact slice.asSlice
  /-- Offer a slot of `len` bytes to a closure that writes `written`. -/
  withSlot (len : Nat) (written : List UInt8) : Cursor W Unit

/-- A buffer of fixed capacity with the bytes written so far. -/
structure BoxBuf where
  capacity : Nat
  data : List UInt8
  fits : data.length ≤ capacity
deriving DecidableEq, Repr

namespace BoxBuf

def withCapacity (capacity : Nat) : BoxBuf :=
  ⟨capacity, [], Nat.zero_le _⟩

/-- The number of bytes written. -/
def len (buf : BoxBuf) : Nat :=
  buf.data.length

/-- The bytes written. -/
def asSlice (buf : BoxBuf) : List UInt8 :=
  buf.data

/-- Reset the length to zero. -/
def clear (buf : BoxBuf) : BoxBuf :=
  ⟨buf.capacity, [], Nat.zero_le _⟩

def remaining (buf : BoxBuf) : Nat :=
  buf.capacity - buf.len

/-- The buffer after `bytes` that fit have been written. -/
def append (buf : BoxBuf) (bytes : List UInt8)
    (room : bytes.length ≤ buf.remaining) : BoxBuf where
  capacity := buf.capacity
  data := buf.data ++ bytes
  fits := by
    have fits := buf.fits
    unfold remaining len at room
    rw [List.length_append]
    omega

/-- Write all the bytes, or nothing. -/
def writeExact (bytes : List UInt8) : Cursor BoxBuf Unit := do
  let buf ← Cursor.get
  if room : bytes.length ≤ buf.remaining then
    Cursor.set (buf.append bytes room)
  else
    Cursor.fail

/--
Hand a slot of `len` bytes to a closure.  A closure that writes past its
slot breaks the contract of the call.
-/
def withSlot (len : Nat) (written : List UInt8) : Cursor BoxBuf Unit := do
  let buf ← Cursor.get
  if buf.remaining < len then
    Cursor.fail
  else if room : written.length ≤ len ∧ len ≤ buf.remaining then
    Cursor.set (buf.append written (Nat.le_trans room.1 room.2))
    if written = [] then
      Cursor.fail
    else
      return ()
  else
    Cursor.lift (.error .bounds)

instance : Writer BoxBuf where
  remaining := remaining
  writeExact := writeExact
  withSlot := withSlot

/-- The current position. -/
def mark (buf : BoxBuf) : Nat :=
  buf.len

/-- Return to a marked position. -/
def rewind (buf : BoxBuf) (mark : Nat) : BoxBuf where
  capacity := buf.capacity
  data := buf.data.take mark
  fits := by
    have fits := buf.fits
    rw [List.length_take]
    omega

@[ext]
theorem ext {left right : BoxBuf} (capacity : left.capacity = right.capacity)
    (data : left.data = right.data) : left = right := by
  cases left
  cases right
  cases capacity
  cases data
  rfl

@[simp]
theorem append_capacity (buf : BoxBuf) (bytes : List UInt8)
    (room : bytes.length ≤ buf.remaining) :
    (buf.append bytes room).capacity = buf.capacity :=
  rfl

@[simp]
theorem append_data (buf : BoxBuf) (bytes : List UInt8)
    (room : bytes.length ≤ buf.remaining) :
    (buf.append bytes room).data = buf.data ++ bytes :=
  rfl

theorem append_remaining (buf : BoxBuf) (bytes : List UInt8)
    (room : bytes.length ≤ buf.remaining) :
    (buf.append bytes room).remaining = buf.remaining - bytes.length := by
  simp only [remaining, len, append_capacity, append_data,
    List.length_append]
  omega

/-- Rewinding to a mark undoes everything written since. -/
theorem rewind_mark {buf after : BoxBuf}
    (capacity : after.capacity = buf.capacity)
    (grown : buf.data <+: after.data) : after.rewind buf.mark = buf := by
  obtain ⟨written, equal⟩ := grown
  apply ext
  · exact capacity
  · simp [rewind, mark, len, ← equal]

end BoxBuf

/-! ## Programs that write given bytes -/

/--
The program writes exactly `bytes` when they fit; otherwise it fails and
leaves what was written before in place.
-/
def Writes (program : Cursor BoxBuf Unit) (bytes : List UInt8) : Prop :=
  ∀ buf : BoxBuf,
    (∀ room : bytes.length ≤ buf.remaining,
      program buf = .ok () (buf.append bytes room)) ∧
    (buf.remaining < bytes.length →
      ∃ after, program buf = .err after ∧
        after.capacity = buf.capacity ∧ buf.data <+: after.data)

namespace Writes

theorem of_pure : Writes (pure ()) [] := by
  intro buf
  constructor
  · intro room
    rw [Cursor.pure_apply]
    congr 1
    exact BoxBuf.ext rfl (by simp)
  · intro few
    exact absurd few (Nat.not_lt_zero _)

theorem writeExact (bytes : List UInt8) :
    Writes (BoxBuf.writeExact bytes) bytes := by
  intro buf
  constructor
  · intro room
    simp only [BoxBuf.writeExact, Cursor.get_bind, dif_pos room]
    rfl
  · intro few
    refine ⟨buf, ?_, rfl, List.prefix_refl _⟩
    simp only [BoxBuf.writeExact, Cursor.get_bind,
      dif_neg (Nat.not_le.2 few), Cursor.fail_apply]

/-- A closure that fills its whole slot writes the slot. -/
theorem withSlot {bytes : List UInt8} (nonempty : bytes ≠ []) :
    Writes (BoxBuf.withSlot bytes.length bytes) bytes := by
  intro buf
  constructor
  · intro room
    simp only [BoxBuf.withSlot, Cursor.get_bind,
      if_neg (Nat.not_lt.2 room), Nat.le_refl, room, and_self,
      dif_pos, Cursor.set_bind, if_neg nonempty, Cursor.pure_apply]
  · intro few
    refine ⟨buf, ?_, rfl, List.prefix_refl _⟩
    simp only [BoxBuf.withSlot, Cursor.get_bind, if_pos few,
      Cursor.fail_apply]

/-- Programs in sequence write their bytes in sequence. -/
theorem seq {first second : Cursor BoxBuf Unit} {front back : List UInt8}
    (writesFirst : Writes first front) (writesSecond : Writes second back) :
    Writes (first >>= fun _ => second) (front ++ back) := by
  intro buf
  by_cases roomFront : front.length ≤ buf.remaining
  · have ran := (writesFirst buf).1 roomFront
    have left := buf.append_remaining front roomFront
    have spec := writesSecond (buf.append front roomFront)
    rw [Cursor.bind_ok ran]
    constructor
    · intro room
      rw [List.length_append] at room
      rw [spec.1 (by rw [left]; omega)]
      congr 1
      exact BoxBuf.ext rfl (by simp)
    · intro few
      rw [List.length_append] at few
      obtain ⟨after, failed, capacity, grown⟩ :=
        spec.2 (by rw [left]; omega)
      exact ⟨after, failed, capacity,
        (List.prefix_append _ _).trans grown⟩
  · obtain ⟨after, failed, capacity, grown⟩ :=
      (writesFirst buf).2 (Nat.lt_of_not_le roomFront)
    rw [Cursor.bind_err failed]
    constructor
    · intro room
      rw [List.length_append] at room
      omega
    · intro _
      exact ⟨after, rfl, capacity, grown⟩

end Writes

end Thubo
