import Thubo.Lib.Lane
import Thubo.RingBuf.Idx

/-!
# Ring buffers with one writer and one reader

The writer and the reader share the slots and two packed indices.  Each keeps
its own index and a copy of the other one, which it loads again only when the
copy shows no room or no element.  Every operation below makes at most one
access to a shared index.
-/

namespace Thubo
namespace RingBuf

/-- What the two handles share. -/
structure RingBuffer (α : Type) where
  /-- The capacity is two to this power, and at most 128. -/
  exponent : Nat
  small : exponent ≤ 7
  slots : Priority → BitVec 8 → Option α
  idxR : Idx
  idxW : Idx

namespace RingBuffer

variable {α : Type}

def new (exponent : Nat) (small : exponent ≤ 7) : RingBuffer α :=
  ⟨exponent, small, fun _ _ => none, Idx.new, Idx.new⟩

def capacity (inner : RingBuffer α) : BitVec 8 :=
  BitVec.ofNat 8 (2 ^ inner.exponent)

def isEmpty (r w : Idx) (p : Priority) : Bool :=
  r.index p == w.index p

def isFull (r w : Idx) (p : Priority) (c : BitVec 8) : Bool :=
  w.index p - r.index p == c

/-- The slot of an index. -/
def slot (inner : RingBuffer α) (p : Priority) (idx : Idx) : BitVec 8 :=
  Lane.position inner.exponent (idx.index p)

/-- The element in the slot of an index. -/
def getElem (inner : RingBuffer α) (p : Priority) (idx : Idx) : Option α :=
  inner.slots p (inner.slot p idx)

/-- Replace the element in the slot of an index. -/
def setElem (inner : RingBuffer α) (p : Priority) (idx : Idx)
    (value : Option α) : RingBuffer α :=
  { inner with
    slots := Priority.update inner.slots p
      (Lane.write (inner.slots p) (inner.slot p idx) value) }

/-- The elements of a priority, oldest first. -/
def queue (inner : RingBuffer α) (p : Priority) : List α :=
  Lane.contents inner.exponent (inner.slots p)
    (inner.idxW.index p - inner.idxR.index p).toNat (inner.idxR.index p)

end RingBuffer

structure RingBufferWriter where
  cachedIdxR : Idx
  localIdxW : Idx

structure RingBufferReader where
  localIdxR : Idx
  cachedIdxW : Idx

/-- A ring buffer with its writer and its reader. -/
structure Spsc (α : Type) where
  inner : RingBuffer α
  writer : RingBufferWriter
  reader : RingBufferReader

namespace Spsc

variable {α : Type}

def new (exponent : Nat) (small : exponent ≤ 7) : Spsc α :=
  ⟨RingBuffer.new exponent small, ⟨Idx.new, Idx.new⟩, ⟨Idx.new, Idx.new⟩⟩

/-- The elements of a priority, oldest first. -/
def queue (ring : Spsc α) : Priority → List α :=
  ring.inner.queue

/-! ## The writer -/

/-- The writer's test for room, which may load the read index. -/
def isFull (ring : Spsc α) (p : Priority) : Bool × Spsc α :=
  if RingBuffer.isFull ring.writer.cachedIdxR ring.writer.localIdxW p
      ring.inner.capacity then
    let writer := { ring.writer with cachedIdxR := ring.inner.idxR }
    (RingBuffer.isFull writer.cachedIdxR writer.localIdxW p
      ring.inner.capacity, { ring with writer := writer })
  else
    (false, ring)

/-- The rest of push: write the element and store the write index. -/
def insert (ring : Spsc α) (p : Priority) (t : α) : Spsc α :=
  let inner := ring.inner.setElem p ring.writer.localIdxW (some t)
  let localIdxW := ring.writer.localIdxW.increment p
  { ring with
    inner := { inner with idxW := localIdxW }
    writer := { ring.writer with localIdxW := localIdxW } }

/-! ## The reader -/

/-- The reader's test for elements, which may load the write index. -/
def isEmpty (ring : Spsc α) (p : Priority) : Bool × Spsc α :=
  if RingBuffer.isEmpty ring.reader.localIdxR ring.reader.cachedIdxW p then
    let reader := { ring.reader with cachedIdxW := ring.inner.idxW }
    (RingBuffer.isEmpty reader.localIdxR reader.cachedIdxW p,
      { ring with reader := reader })
  else
    (false, ring)

/-- The element that a peek at a nonempty priority refers to. -/
def front (ring : Spsc α) (p : Priority) : Option α :=
  ring.inner.getElem p ring.reader.localIdxR

/-- A write through the reference that a peek returns. -/
def setFront (ring : Spsc α) (p : Priority) (t : α) : Spsc α :=
  { ring with
    inner := ring.inner.setElem p ring.reader.localIdxR (some t) }

/-- The rest of pull: take the element and store the read index. -/
def remove (ring : Spsc α) (p : Priority) : Spsc α :=
  let inner := ring.inner.setElem p ring.reader.localIdxR none
  let localIdxR := ring.reader.localIdxR.increment p
  { ring with
    inner := { inner with idxR := localIdxR }
    reader := { ring.reader with localIdxR := localIdxR } }

/-! ## The ring holds four queues -/

/-- The ring buffer is in a state where it holds these queues. -/
structure Holds (ring : Spsc α) (queues : Priority → List α) : Prop where
  localR : ring.reader.localIdxR = ring.inner.idxR
  localW : ring.writer.localIdxW = ring.inner.idxW
  lane : ∀ p, Lane.Holds ring.inner.exponent (ring.inner.slots p)
    (ring.inner.idxR.index p) (ring.inner.idxW.index p) (queues p)
  seen : ∀ p, Lane.Seen (ring.inner.idxR.index p)
    (ring.reader.cachedIdxW.index p) (queues p)
  passed : ∀ p, Lane.Passed ring.inner.exponent (ring.inner.idxR.index p)
    (ring.writer.cachedIdxR.index p) (queues p)

/-- The writer's copy of the read index shows room. -/
def ShowsRoom (ring : Spsc α) (p : Priority) : Prop :=
  RingBuffer.isFull ring.writer.cachedIdxR ring.writer.localIdxW p
    ring.inner.capacity = false

/-- The reader's copy of the write index shows an element. -/
def ShowsElement (ring : Spsc α) (p : Priority) : Prop :=
  RingBuffer.isEmpty ring.reader.localIdxR ring.reader.cachedIdxW p = false

variable {ring : Spsc α} {queues : Priority → List α}

theorem narrow (ring : Spsc α) : ring.inner.exponent < 8 :=
  Nat.lt_succ_of_le ring.inner.small

theorem holds_new (exponent : Nat) (small : exponent ≤ 7) :
    Holds (new exponent small : Spsc α) fun _ => [] where
  localR := rfl
  localW := rfl
  lane p := by
    rw [new, RingBuffer.new, Idx.index_new]
    exact Lane.Holds.new _
  seen p := by
    rw [new, RingBuffer.new, Idx.index_new]
    exact ⟨0, Nat.le_refl _, rfl⟩
  passed p := by
    rw [new, RingBuffer.new, Idx.index_new]
    exact ⟨0, Nat.zero_le _, rfl⟩

/-- The queues that a ring holds are those found in its slots. -/
theorem Holds.queue_eq (holds : ring.Holds queues) :
    ring.queue = queues := by
  funext p
  exact (holds.lane p).contents_eq ring.narrow

/-- The writer's test passes only when its copy shows room. -/
theorem Holds.isFull (holds : ring.Holds queues) (p : Priority) :
    (ring.isFull p).2.Holds queues ∧
      (ring.isFull p).2.inner = ring.inner ∧
      (ring.isFull p).2.reader = ring.reader ∧
      ((ring.isFull p).1 = false → (ring.isFull p).2.ShowsRoom p) := by
  unfold Spsc.isFull
  split
  · refine ⟨?_, rfl, rfl, id⟩
    exact ⟨holds.localR, holds.localW, holds.lane, holds.seen,
      fun q => (holds.lane q).passed⟩
  · rename_i shown
    exact ⟨holds, rfl, rfl, fun _ => Bool.eq_false_iff.2 shown⟩

/-- The reader's test is exact, whether or not it loads the index. -/
theorem Holds.isEmpty (holds : ring.Holds queues) (p : Priority) :
    (ring.isEmpty p).2.Holds queues ∧
      (ring.isEmpty p).2.inner = ring.inner ∧
      (ring.isEmpty p).2.writer = ring.writer ∧
      ((ring.isEmpty p).1 = true → queues p = []) ∧
      ((ring.isEmpty p).1 = false → (ring.isEmpty p).2.ShowsElement p) := by
  have empty := (holds.lane p).empty_iff ring.narrow
  unfold Spsc.isEmpty
  split
  · refine ⟨?_, rfl, rfl, ?_, id⟩
    · exact ⟨holds.localR, holds.localW, holds.lane,
        fun q => (holds.lane q).seen, holds.passed⟩
    · intro reached
      apply empty.1
      simpa [RingBuffer.isEmpty, holds.localR] using reached
  · rename_i shown
    refine ⟨holds, rfl, rfl, ?_, fun _ => Bool.eq_false_iff.2 shown⟩
    intro impossible
    cases impossible

/-- A priority that shows an element has one. -/
theorem Holds.nonempty (holds : ring.Holds queues) {p : Priority}
    (shows_ : ring.ShowsElement p) : queues p ≠ [] := by
  apply (holds.seen p).nonempty
  intro same
  rw [ShowsElement, RingBuffer.isEmpty, holds.localR, same] at shows_
  simp at shows_

/-- The front of a nonempty queue. -/
theorem Holds.front (holds : ring.Holds queues) {p : Priority} {t : α}
    {rest : List α} (queue : queues p = t :: rest) :
    ring.front p = some t := by
  have lane := holds.lane p
  rw [queue] at lane
  rw [Spsc.front, RingBuffer.getElem, RingBuffer.slot, holds.localR]
  exact lane.head

/-- Insert appends to the queue of its priority. -/
theorem Holds.insert (holds : ring.Holds queues) {p : Priority}
    (room : ring.ShowsRoom p) (t : α) :
    (ring.insert p t).Holds
      (Priority.update queues p (queues p ++ [t])) := by
  have differs : ring.inner.idxW.index p -
      ring.writer.cachedIdxR.index p ≠
        BitVec.ofNat 8 (2 ^ ring.inner.exponent) := by
    rw [← holds.localW]
    exact beq_eq_false_iff_ne.1 room
  have free := (holds.passed p).room (holds.lane p) differs
  refine ⟨holds.localR, rfl, ?_, ?_, ?_⟩
  · intro q
    by_cases same : q = p
    · subst same
      simpa [Spsc.insert, RingBuffer.setElem, RingBuffer.slot,
        holds.localW] using (holds.lane q).put ring.narrow free t
    · simpa [Spsc.insert, RingBuffer.setElem, same, holds.localW] using
        holds.lane q
  · intro q
    by_cases same : q = p
    · subst same
      simpa [Spsc.insert, RingBuffer.setElem] using (holds.seen q).put t
    · simpa [Spsc.insert, RingBuffer.setElem, same] using holds.seen q
  · intro q
    by_cases same : q = p
    · subst same
      simpa [Spsc.insert, RingBuffer.setElem] using
        (holds.passed q).put differs (holds.lane q) t
    · simpa [Spsc.insert, RingBuffer.setElem, same] using holds.passed q

/-- Remove takes the front of the queue of its priority. -/
theorem Holds.remove (holds : ring.Holds queues) {p : Priority}
    (shows_ : ring.ShowsElement p) :
    (ring.remove p).Holds
      (Priority.update queues p (queues p).tail) := by
  cases queue : queues p with
  | nil => exact absurd queue (holds.nonempty shows_)
  | cons t rest =>
      have lane := holds.lane p
      have seen := holds.seen p
      have passed := holds.passed p
      rw [queue] at lane seen passed
      have differs : ring.inner.idxR.index p ≠
          ring.reader.cachedIdxW.index p := by
        rw [← holds.localR]
        exact beq_eq_false_iff_ne.1 shows_
      refine ⟨rfl, holds.localW, ?_, ?_, ?_⟩
      · intro q
        by_cases same : q = p
        · subst same
          simpa [Spsc.remove, RingBuffer.setElem, RingBuffer.slot,
            holds.localR] using lane.take ring.narrow
        · simpa [Spsc.remove, RingBuffer.setElem, same, holds.localR]
            using holds.lane q
      · intro q
        by_cases same : q = p
        · subst same
          simpa [Spsc.remove, RingBuffer.setElem, holds.localR] using
            seen.take differs
        · simpa [Spsc.remove, RingBuffer.setElem, same, holds.localR]
            using holds.seen q
      · intro q
        by_cases same : q = p
        · subst same
          simpa [Spsc.remove, RingBuffer.setElem, holds.localR] using
            passed.take
        · simpa [Spsc.remove, RingBuffer.setElem, same, holds.localR]
            using holds.passed q

/-- A write through a peek replaces the front of the queue. -/
theorem Holds.setFront (holds : ring.Holds queues) {p : Priority}
    {t : α} {rest : List α} (queue : queues p = t :: rest)
    (changed : α) :
    (ring.setFront p changed).Holds
      (Priority.update queues p (changed :: rest)) := by
  have lane := holds.lane p
  have seen := holds.seen p
  have passed := holds.passed p
  rw [queue] at lane seen passed
  refine ⟨holds.localR, holds.localW, ?_, ?_, ?_⟩
  · intro q
    by_cases same : q = p
    · subst same
      simpa [Spsc.setFront, RingBuffer.setElem, RingBuffer.slot,
        holds.localR] using lane.replace ring.narrow changed
    · simpa [Spsc.setFront, RingBuffer.setElem, same] using holds.lane q
  · intro q
    by_cases same : q = p
    · subst same
      simpa [Spsc.setFront, RingBuffer.setElem] using seen.replace changed
    · simpa [Spsc.setFront, RingBuffer.setElem, same] using holds.seen q
  · intro q
    by_cases same : q = p
    · subst same
      simpa [Spsc.setFront, RingBuffer.setElem] using
        passed.replace changed
    · simpa [Spsc.setFront, RingBuffer.setElem, same] using
        holds.passed q

end Spsc
end RingBuf
end Thubo
