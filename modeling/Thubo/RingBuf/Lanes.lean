import Thubo.RingBuf.Shared

/-!
# The lanes of a ring buffer

At each priority the handles of a ring buffer see one exchange, whatever the
configuration.  The invariant says that each exchange is sound and that each
handle stands where its exchange allows it.
-/

namespace Thubo
namespace RingBuf

/-! ## One priority of the ring -/

/-- The shared flag of a priority is behind the writer's own. -/
def WriterPoint.marks {α : Type} (point : WriterPoint α)
    (p : Priority) : Bool :=
  match point with
  | .mark q => p = q
  | _ => false

/-- The writer has counted an element of a priority and not published it. -/
def WriterPoint.publishes {α : Type} (point : WriterPoint α)
    (p : Priority) : Bool :=
  match point with
  | .update q _ => p = q
  | _ => false

/-- The reader has emptied a slot of a priority and not published it. -/
def ReaderPoint.releases (point : ReaderPoint) (p : Priority) : Bool :=
  match point with
  | .update q _ => p = q
  | _ => false

/-- The priority of the operation that a writer is in. -/
def WriterPoint.priority {α : Type} : WriterPoint α → Option Priority
  | .idle => none
  | .load p _ _ => some p
  | .write p _ _ => some p
  | .mark p => some p
  | .update p _ => some p

/-- The priority of the operation that a reader is in. -/
def ReaderPoint.priority : ReaderPoint → Option Priority
  | .idle => none
  | .load p _ => some p
  | .take p => some p
  | .update p _ => some p

namespace Shared

variable {α : Type} {ring after : Shared α} {p q h : Priority}

/-- What the handles of one priority see of the ring. -/
def lane (ring : Shared α) (p : Priority) : Exchange 8 α :=
  let writer := ring.writers (ring.kind.writer p)
  let reader := ring.readers (ring.kind.reader p)
  { slots := ring.inner.slots p
    read := ring.inner.idxR.index p
    written := ring.inner.idxW.index p
    marked := ring.inner.idxW.booked p
    ownWritten := writer.handle.localIdxW.index p
    seenRead := writer.handle.cachedIdxR.index p
    reserved := writer.handle.localIdxW.booked p
    ownRead := reader.handle.localIdxR.index p
    seenWritten := reader.handle.cachedIdxW.index p
    marking := writer.point.marks p
    publishing := writer.point.publishes p
    releasing := reader.point.releases p
    log := ring.log p }

/-- A writer shows at its own priorities. -/
theorem lane_setWriter (ring : Shared α) (h : Priority)
    (writer : Writer α) (q : Priority) :
    (ring.setWriter h writer).lane q =
      if ring.kind.writer q = h then
        { ring.lane q with
          ownWritten := writer.handle.localIdxW.index q
          seenRead := writer.handle.cachedIdxR.index q
          reserved := writer.handle.localIdxW.booked q
          marking := writer.point.marks q
          publishing := writer.point.publishes q }
      else
        ring.lane q := by
  split
  · rename_i own
    simp [lane, setWriter, own]
  · rename_i own
    simp [lane, setWriter, own]

/-- A reader shows at its own priorities. -/
theorem lane_setReader (ring : Shared α) (h : Priority)
    (reader : Reader) (q : Priority) :
    (ring.setReader h reader).lane q =
      if ring.kind.reader q = h then
        { ring.lane q with
          ownRead := reader.handle.localIdxR.index q
          seenWritten := reader.handle.cachedIdxW.index q
          releasing := reader.point.releases q }
      else
        ring.lane q := by
  split
  · rename_i own
    simp [lane, setReader, own]
  · rename_i own
    simp [lane, setReader, own]

@[simp]
theorem lane_setIdxW (ring : Shared α) (word : Idx) (q : Priority) :
    (ring.setIdxW word).lane q =
      { ring.lane q with
        written := word.index q
        marked := word.booked q } :=
  rfl

@[simp]
theorem lane_setIdxR (ring : Shared α) (word : Idx) (q : Priority) :
    (ring.setIdxR word).lane q =
      { ring.lane q with read := word.index q } :=
  rfl

@[simp]
theorem lane_setLog (ring : Shared α) (p : Priority)
    (log : Exchange.Log α) (q : Priority) :
    (ring.setLog p log).lane q =
      { ring.lane q with
        log := if q = p then log else ring.log q } :=
  rfl

/-! ## The invariant -/

/-- A writer works at its own priorities, and only where it may. -/
def WriterAt (ring : Shared α) (h : Priority) : WriterPoint α → Prop
  | .idle => True
  | .load p _ _ =>
      ring.kind.writer p = h ∧ (ring.lane p).reserved = false
  | .write p _ _ =>
      ring.kind.writer p = h ∧ (ring.lane p).reserved = false ∧
        (ring.lane p).ShowsRoom ring.inner.exponent
  | .mark p => ring.kind.writer p = h
  | .update p update =>
      ring.kind.writer p = h ∧
        (update = .store → ∀ q, ring.kind.writer q = h)

/-- A reader works at its own priorities. -/
def ReaderAt (ring : Shared α) (h : Priority) : ReaderPoint → Prop
  | .idle => True
  | .load p rest => ∀ q ∈ p :: rest, ring.kind.reader q = h
  | .take p => ring.kind.reader p = h ∧ (ring.lane p).ShowsElement
  | .update p update =>
      ring.kind.reader p = h ∧
        (update = .store → ∀ q, ring.kind.reader q = h)

structure Sound (ring : Shared α) : Prop where
  lanes : ∀ p, (ring.lane p).Sound ring.inner.exponent
  writing : ∀ h, ring.WriterAt h (ring.writers h).point
  reading : ∀ h, ring.ReaderAt h (ring.readers h).point

/-! ## What a step changes -/

/-- What a step that works at one priority at most does to the ring. -/
structure Stepped (ring after : Shared α) (place : Option Priority) :
    Prop where
  kind : after.kind = ring.kind
  exponent : after.inner.exponent = ring.inner.exponent
  moves : ∀ q, place = some q →
    (ring.lane q).Moves ring.inner.exponent (after.lane q)
  looks : ∀ q, place ≠ some q → (ring.lane q).Looks (after.lane q)
  writing : ∀ h, after.WriterAt h (after.writers h).point
  reading : ∀ h, after.ReaderAt h (after.readers h).point

theorem narrow (ring : Shared α) : ring.inner.exponent < 8 :=
  Nat.lt_succ_of_le ring.inner.small

theorem Stepped.sound {place : Option Priority}
    (stepped : Stepped ring after place) (sound : ring.Sound) :
    after.Sound where
  lanes q := by
    rw [stepped.exponent]
    by_cases here : place = some q
    · exact (stepped.moves q here).sound ring.narrow (sound.lanes q)
    · exact (stepped.looks q here).sound (sound.lanes q)
  writing := stepped.writing
  reading := stepped.reading

/-- What a writer may do depends on its own indices only. -/
theorem WriterAt.frame {point : WriterPoint α}
    (writing : ring.WriterAt h point) (kind : after.kind = ring.kind)
    (exponent : after.inner.exponent = ring.inner.exponent)
    (same : after.writers h = ring.writers h) :
    after.WriterAt h point := by
  cases point with
  | idle => trivial
  | load p t books =>
      rcases writing with ⟨own, free⟩
      refine ⟨by rw [kind]; exact own, ?_⟩
      simpa only [lane, kind, own, same] using free
  | write p t books =>
      rcases writing with ⟨own, free, shows⟩
      refine ⟨by rw [kind]; exact own, ?_, ?_⟩
      · simpa only [lane, kind, own, same] using free
      · simpa only [lane, kind, own, same, exponent,
          Exchange.ShowsRoom] using shows
  | mark p =>
      rw [WriterAt, kind]
      exact writing
  | update p update =>
      rw [WriterAt, kind]
      exact writing

theorem ReaderAt.frame {point : ReaderPoint}
    (reading : ring.ReaderAt h point) (kind : after.kind = ring.kind)
    (same : after.readers h = ring.readers h) :
    after.ReaderAt h point := by
  cases point with
  | idle => trivial
  | load p rest =>
      rw [ReaderAt, kind]
      exact reading
  | take p =>
      rcases reading with ⟨own, shows⟩
      refine ⟨by rw [kind]; exact own, ?_⟩
      simpa only [lane, kind, own, same, Exchange.ShowsElement] using shows
  | update p update =>
      rw [ReaderAt, kind]
      exact reading

/-- A copy shows room exactly when the test of the writer passes. -/
theorem isFull_eq_false (writer : Writer α)
    (own : ring.writers (ring.kind.writer p) = writer) :
    RingBuffer.isFull writer.handle.cachedIdxR writer.handle.localIdxW p
        ring.inner.capacity = false ↔
      (ring.lane p).ShowsRoom ring.inner.exponent := by
  subst own
  exact beq_eq_false_iff_ne

theorem isEmpty_eq_false (reader : Reader)
    (own : ring.readers (ring.kind.reader p) = reader) :
    RingBuffer.isEmpty reader.handle.localIdxR reader.handle.cachedIdxW p =
        false ↔
      (ring.lane p).ShowsElement := by
  subst own
  exact beq_eq_false_iff_ne

/-- A step of a writer leaves the other handles where they are. -/
theorem Stepped.of_writer {place : Option Priority} (sound : ring.Sound)
    (kind : after.kind = ring.kind)
    (exponent : after.inner.exponent = ring.inner.exponent)
    (writers : ∀ other, other ≠ h →
      after.writers other = ring.writers other)
    (readers : after.readers = ring.readers)
    (moves : ∀ q, place = some q →
      (ring.lane q).Moves ring.inner.exponent (after.lane q))
    (looks : ∀ q, place ≠ some q → (ring.lane q).Looks (after.lane q))
    (writing : after.WriterAt h (after.writers h).point) :
    Stepped ring after place where
  kind := kind
  exponent := exponent
  moves := moves
  looks := looks
  writing other := by
    by_cases same : other = h
    · rw [same]
      exact writing
    · rw [writers other same]
      exact (sound.writing other).frame kind exponent (writers other same)
  reading other := by
    rw [readers]
    exact (sound.reading other).frame kind (congrFun readers other)

theorem Stepped.of_reader {place : Option Priority} (sound : ring.Sound)
    (kind : after.kind = ring.kind)
    (exponent : after.inner.exponent = ring.inner.exponent)
    (writers : after.writers = ring.writers)
    (readers : ∀ other, other ≠ h →
      after.readers other = ring.readers other)
    (moves : ∀ q, place = some q →
      (ring.lane q).Moves ring.inner.exponent (after.lane q))
    (looks : ∀ q, place ≠ some q → (ring.lane q).Looks (after.lane q))
    (reading : after.ReaderAt h (after.readers h).point) :
    Stepped ring after place where
  kind := kind
  exponent := exponent
  moves := moves
  looks := looks
  writing other := by
    rw [writers]
    exact (sound.writing other).frame kind exponent
      (congrFun writers other)
  reading other := by
    by_cases same : other = h
    · rw [same]
      exact reading
    · rw [readers other same]
      exact (sound.reading other).frame kind (readers other same)

end Shared
end RingBuf
end Thubo
