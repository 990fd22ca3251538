import Thubo.RingBuf.Lanes

/-!
# Steps of a ring buffer

Every access of a handle is a step of the exchange at the priority of its
operation, and at most a load for the other priorities.
-/

namespace Thubo
namespace RingBuf

theorem Kind.writerUpdate_store {kind : Kind}
    (store : kind.writerUpdate = .store) (p q : Priority) :
    kind.writer q = kind.writer p := by
  cases kind with
  | spsc => rfl
  | mpsc => cases store
  | spmc => rfl

theorem Kind.readerUpdate_store {kind : Kind}
    (store : kind.readerUpdate = .store) (p q : Priority) :
    kind.reader q = kind.reader p := by
  cases kind with
  | spsc => rfl
  | mpsc => rfl
  | spmc => cases store

namespace Shared

variable {α : Type} {ring after : Shared α} {p q h : Priority}

theorem Stepped.refl (sound : ring.Sound) : Stepped ring ring none where
  kind := rfl
  exponent := rfl
  moves _ _ := .looks .stay
  looks _ _ := .stay
  writing := sound.writing
  reading := sound.reading

theorem setWriter_same (ring : Shared α) (h : Priority)
    (writer : Writer α) : (ring.setWriter h writer).writers h = writer :=
  if_pos rfl

theorem setReader_same (ring : Shared α) (h : Priority)
    (reader : Reader) : (ring.setReader h reader).readers h = reader :=
  if_pos rfl

theorem setWriter_other (writer : Writer α) (other : Priority)
    (distinct : other ≠ h) :
    (ring.setWriter h writer).writers other = ring.writers other :=
  if_neg distinct

theorem setReader_other (reader : Reader) (other : Priority)
    (distinct : other ≠ h) :
    (ring.setReader h reader).readers other = ring.readers other :=
  if_neg distinct

/-! ## The steps of a writer -/

theorem start_marks (handle : RingBufferWriter) (capacity : BitVec 8)
    (p : Priority) (t : α) (books : Bool) :
    (handle.start capacity p t books).marks = fun _ => false := by
  unfold RingBufferWriter.start
  split
  · rfl
  · rfl

theorem start_publishes (handle : RingBufferWriter) (capacity : BitVec 8)
    (p : Priority) (t : α) (books : Bool) :
    (handle.start capacity p t books).publishes = fun _ => false := by
  unfold RingBufferWriter.start
  split
  · rfl
  · rfl

/-- What a writer may do is the same where the lanes are. -/
theorem WriterAt.congr {point : WriterPoint α}
    (writing : ring.WriterAt h point) (kind : after.kind = ring.kind)
    (exponent : after.inner.exponent = ring.inner.exponent)
    (lanes : ∀ q, after.lane q = ring.lane q) : after.WriterAt h point := by
  cases point with
  | idle => trivial
  | _ => simpa only [WriterAt, kind, exponent, lanes] using writing

theorem ReaderAt.congr {point : ReaderPoint}
    (reading : ring.ReaderAt h point) (kind : after.kind = ring.kind)
    (lanes : ∀ q, after.lane q = ring.lane q) :
    after.ReaderAt h point := by
  cases point with
  | idle => trivial
  | _ => simpa only [ReaderAt, kind, lanes] using reading

/-- A writer goes on without an access that others see. -/
theorem Sound.writerGoes (sound : ring.Sound) {point : WriterPoint α}
    (marks : point.marks = (ring.writers h).point.marks)
    (publishes : point.publishes = (ring.writers h).point.publishes)
    (writing : ring.WriterAt h point) (place : Option Priority) :
    Stepped ring
      (ring.setWriter h ⟨(ring.writers h).handle, point⟩) place := by
  have lanes : ∀ q, (ring.setWriter h
      ⟨(ring.writers h).handle, point⟩).lane q = ring.lane q := by
    intro q
    rw [lane_setWriter]
    split
    · rename_i own
      simp only [lane, own, marks, publishes]
    · rfl
  refine Stepped.of_writer sound rfl rfl (setWriter_other _) rfl ?_ ?_ ?_
  · intro q _
    rw [lanes]
    exact .looks .stay
  · intro q _
    rw [lanes]
    exact .stay
  · rw [setWriter_same]
    exact writing.congr rfl rfl lanes

theorem Sound.readerGoes (sound : ring.Sound) {point : ReaderPoint}
    (releases : point.releases = (ring.readers h).point.releases)
    (reading : ring.ReaderAt h point) (place : Option Priority) :
    Stepped ring
      (ring.setReader h ⟨(ring.readers h).handle, point⟩) place := by
  have lanes : ∀ q, (ring.setReader h
      ⟨(ring.readers h).handle, point⟩).lane q = ring.lane q := by
    intro q
    rw [lane_setReader]
    split
    · rename_i own
      simp only [lane, own, releases]
    · rfl
  refine Stepped.of_reader sound rfl rfl rfl (setReader_other _) ?_ ?_ ?_
  · intro q _
    rw [lanes]
    exact .looks .stay
  · intro q _
    rw [lanes]
    exact .stay
  · rw [setReader_same]
    exact reading.congr rfl lanes

/-- A push or a booking starts where nothing is booked. -/
theorem Sound.start (sound : ring.Sound) (own : ring.kind.writer p = h)
    (idle : (ring.writers h).point = .idle)
    (free : (ring.lane p).reserved = false) (t : α) (books : Bool) :
    Stepped ring
      (ring.setWriter h ⟨(ring.writers h).handle,
        (ring.writers h).handle.start ring.inner.capacity p t books⟩)
      none := by
  apply sound.writerGoes
  · rw [idle, start_marks]
    rfl
  · rw [idle, start_publishes]
    rfl
  · unfold RingBufferWriter.start
    split
    · exact ⟨own, free⟩
    · rename_i shows
      refine ⟨own, free, ?_⟩
      exact (isFull_eq_false _ (congrArg _ own)).1
        (Bool.eq_false_of_not_eq_true shows)

/-- What the test that starts a push or a booking asks for. -/
def Admits (ring : Shared α) : Action α → Prop
  | .push p _ =>
      (ring.writers (ring.kind.writer p)).handle.localIdxW.booked p = false
  | _ => True

theorem Sound.push (sound : ring.Sound) {t : α}
    (free : ring.Admits (.push p t))
    (stepped : ring.push p t = some after) : Stepped ring after none := by
  unfold Shared.push at stepped
  dsimp only at stepped
  split at stepped
  · rename_i idle
    cases stepped
    exact sound.start rfl idle free t false
  · cases stepped

theorem Sound.book (sound : ring.Sound) {t : α}
    (stepped : ring.book p t = some after) : Stepped ring after none := by
  unfold Shared.book at stepped
  dsimp only at stepped
  split at stepped
  · rename_i idle
    split at stepped
    · cases stepped
      exact .refl sound
    · rename_i free
      cases stepped
      exact sound.start rfl idle (Bool.eq_false_of_not_eq_true free) t true
  · cases stepped

/-- A step that changes one lane works at its priority. -/
theorem moves_update {lane : Exchange 8 α}
    (lanes : after.lane = Priority.update ring.lane p lane)
    (move : (ring.lane p).Moves ring.inner.exponent lane) (q : Priority)
    (here : some p = some q) :
    (ring.lane q).Moves ring.inner.exponent (after.lane q) := by
  cases here
  rw [lanes, Priority.update_same]
  exact move

theorem looks_update {lane : Exchange 8 α}
    (lanes : after.lane = Priority.update ring.lane p lane) (q : Priority)
    (elsewhere : some p ≠ some q) :
    (ring.lane q).Looks (after.lane q) := by
  rw [lanes, Priority.update_other]
  · exact .stay
  · rintro rfl
    exact elsewhere rfl

/-- An update that stores is one of a handle that owns the word. -/
theorem writerAt_update (own : ring.kind.writer p = h) :
    ring.WriterAt h (.update p ring.kind.writerUpdate) :=
  ⟨own, fun store q => (Kind.writerUpdate_store store p q).trans own⟩

theorem readerAt_update (own : ring.kind.reader p = h) :
    ring.ReaderAt h (.update p ring.kind.readerUpdate) :=
  ⟨own, fun store q => (Kind.readerUpdate_store store p q).trans own⟩

theorem lane_count (own : ring.kind.writer p = h)
    (idle : (ring.writers h).point = .idle) :
    (ring.count h p).lane =
      Priority.update ring.lane p (ring.lane p).commit := by
  funext q
  rw [Shared.count, lane_setWriter]
  by_cases same : q = p
  · subst same
    simp [lane, own, idle, Exchange.commit, WriterPoint.marks,
      WriterPoint.publishes]
  · rw [Priority.update_other _ same]
    split
    · rename_i shared
      simp [lane, shared, idle, same, WriterPoint.marks,
        WriterPoint.publishes]
    · rfl

theorem Sound.count (sound : ring.Sound) (own : ring.kind.writer p = h)
    (idle : (ring.writers h).point = .idle)
    (booked : (ring.writers h).handle.localIdxW.booked p = true) :
    Stepped ring (ring.count h p) (some p) := by
  have lanes := lane_count own idle
  refine Stepped.of_writer sound rfl rfl (setWriter_other _) rfl
    (moves_update lanes (.commit ?_ ?_)) (looks_update lanes) ?_
  · simpa only [lane, own] using booked
  · simp only [lane, own, idle, WriterPoint.marks]
  · rw [Shared.count, setWriter_same]
    exact writerAt_update own

theorem Sound.commit (sound : ring.Sound)
    (stepped : ring.commit p = some after) :
    Stepped ring after (some p) := by
  unfold Shared.commit at stepped
  dsimp only at stepped
  split at stepped
  · rename_i idle
    split at stepped
    · rename_i booked
      cases stepped
      exact sound.count rfl idle booked
    · cases stepped
  · cases stepped

theorem lane_loadIdxR {t : α} {books : Bool}
    (point : (ring.writers h).point = .load p t books) (q : Priority) :
    (ring.loadIdxR h p t books).lane q =
      if ring.kind.writer q = h then
        (ring.lane q).loadRead
      else
        ring.lane q := by
  rw [loadIdxR, lane_setWriter]
  split
  · rename_i shared
    simp only [lane, shared, point, Exchange.loadRead]
    split
    · rfl
    · rfl
  · rfl

theorem loadIdxR_point (ring : Shared α) (h p : Priority) (t : α)
    (books : Bool) :
    ((ring.loadIdxR h p t books).writers h).point =
      if RingBuffer.isFull ring.inner.idxR
          (ring.writers h).handle.localIdxW p ring.inner.capacity then
        .idle
      else
        .write p t books := by
  rw [loadIdxR, setWriter_same]

theorem Sound.loadIdxR (sound : ring.Sound) {t : α} {books : Bool}
    (point : (ring.writers h).point = .load p t books) :
    Stepped ring (ring.loadIdxR h p t books) (some p) := by
  have writing := sound.writing h
  rw [point] at writing
  rcases writing with ⟨own, free⟩
  have lanes := lane_loadIdxR point
  have looks : ∀ q,
      (ring.lane q).Looks ((ring.loadIdxR h p t books).lane q) := by
    intro q
    rw [lanes]
    split
    · exact .loadRead
    · exact .stay
  refine Stepped.of_writer sound rfl rfl (setWriter_other _) rfl
    (fun q _ => .looks (looks q)) (fun q _ => looks q) ?_
  rw [loadIdxR_point]
  split
  · trivial
  · rename_i shows
    refine ⟨own, ?_, ?_⟩
    · rw [lanes, if_pos own]
      exact free
    · rw [lanes, if_pos own]
      subst own
      exact beq_eq_false_iff_ne.1 (Bool.eq_false_of_not_eq_true shows)

theorem lane_putElem {idx : Idx}
    (here : idx.index p = (ring.lane p).ownWritten) (t : α) :
    (ring.putElem p idx t).lane =
      Priority.update ring.lane p
        ((ring.lane p).fill ring.inner.exponent t) := by
  funext q
  by_cases same : q = p
  · subst same
    rw [Priority.update_same]
    simp only [putElem, lane, setLog, RingBuffer.setElem,
      Priority.update_same, Exchange.fill, Exchange.writerSlot,
      RingBuffer.slot, here]
  · rw [Priority.update_other _ same]
    simp only [putElem, lane, setLog, RingBuffer.setElem,
      Priority.update_other _ same]

theorem lane_writeElem (own : ring.kind.writer p = h)
    (free : (ring.lane p).reserved = false) {t : α} {books : Bool}
    (point : (ring.writers h).point = .write p t books) :
    (ring.writeElem h p t books).lane =
      Priority.update ring.lane p
        (if books then
          (ring.lane p).reserve ring.inner.exponent t
        else
          (ring.lane p).put ring.inner.exponent t) := by
  have filled := lane_putElem (congrArg
    (fun h => (ring.writers h).handle.localIdxW.index p) own.symm) t
  have kind : (ring.putElem p (ring.writers h).handle.localIdxW t).kind =
    ring.kind := rfl
  funext q
  by_cases same : q = p
  · subst same
    rw [Priority.update_same]
    subst own
    cases books with
    | true =>
        rw [writeElem, if_pos rfl, lane_setWriter, kind, if_pos rfl,
          filled, Priority.update_same]
        simp [Exchange.reserve, Exchange.fill, lane, point,
          WriterPoint.marks, WriterPoint.publishes, Exchange.writerSlot]
    | false =>
        have unbooked :
            (ring.writers (ring.kind.writer q)).handle.localIdxW.booked q =
              false := free
        rw [writeElem, if_neg Bool.false_ne_true, lane_setWriter, kind,
          if_pos rfl, filled, Priority.update_same]
        simp [Exchange.put, Exchange.commit, Exchange.fill, lane, point,
          WriterPoint.marks, WriterPoint.publishes, Exchange.writerSlot,
          unbooked]
  · rw [Priority.update_other _ same]
    cases books with
    | true =>
        rw [writeElem, if_pos rfl, lane_setWriter, kind, filled,
          Priority.update_other _ same]
        split
        · rename_i shared
          simp [lane, shared, point, same, WriterPoint.marks,
            WriterPoint.publishes]
        · rfl
    | false =>
        rw [writeElem, if_neg Bool.false_ne_true, lane_setWriter, kind,
          filled, Priority.update_other _ same]
        split
        · rename_i shared
          simp [lane, shared, point, same, WriterPoint.marks,
            WriterPoint.publishes]
        · rfl

/-- A writer at rest publishes nothing. -/
theorem quiet_of (own : ring.kind.writer p = h)
    (quiet : (ring.writers h).point.publishes p = false)
    (free : (ring.lane p).reserved = false) : (ring.lane p).Quiet := by
  subst own
  exact ⟨quiet, free⟩

theorem Sound.writeElem (sound : ring.Sound) {t : α} {books : Bool}
    (point : (ring.writers h).point = .write p t books) :
    Stepped ring (ring.writeElem h p t books) (some p) := by
  have writing := sound.writing h
  rw [point] at writing
  rcases writing with ⟨own, free, shows⟩
  have quiet : (ring.lane p).Quiet := quiet_of own (by rw [point]; rfl) free
  have lanes := lane_writeElem own free point
  cases books with
  | true =>
      refine Stepped.of_writer sound rfl rfl (setWriter_other _) rfl
        (moves_update lanes (.reserve quiet shows t)) (looks_update lanes)
        ?_
      rw [Shared.writeElem, if_pos rfl, setWriter_same]
      exact own
  | false =>
      refine Stepped.of_writer sound rfl rfl (setWriter_other _) rfl
        (moves_update lanes (.put quiet shows t)) (looks_update lanes) ?_
      rw [Shared.writeElem, if_neg Bool.false_ne_true, setWriter_same]
      exact writerAt_update own

theorem lane_markBooked (own : ring.kind.writer p = h)
    (point : (ring.writers h).point = .mark p) :
    (ring.markBooked h p).lane =
      Priority.update ring.lane p (ring.lane p).mark := by
  funext q
  have kind : (ring.setIdxW (ring.inner.idxW.set (Idx.flag p))).kind =
    ring.kind := rfl
  rw [markBooked, lane_setWriter, kind, lane_setIdxW]
  by_cases same : q = p
  · subst same
    subst own
    simp [lane, Exchange.mark, point, WriterPoint.marks,
      WriterPoint.publishes]
  · rw [Priority.update_other _ same]
    split
    · rename_i shared
      simp [lane, shared, point, same, WriterPoint.marks,
        WriterPoint.publishes]
    · simp [lane, same]

theorem Sound.markBooked (sound : ring.Sound)
    (point : (ring.writers h).point = .mark p) :
    Stepped ring (ring.markBooked h p) (some p) := by
  have writing := sound.writing h
  rw [point] at writing
  have own : ring.kind.writer p = h := writing
  have lanes := lane_markBooked own point
  refine Stepped.of_writer sound rfl rfl (setWriter_other _) rfl
    (moves_update lanes (.mark ?_)) (looks_update lanes) ?_
  · simp [lane, own, point, WriterPoint.marks]
  · rw [Shared.markBooked, setWriter_same]
    trivial

/--
An update that is done has replaced what the word shows at its priority.  A
store needs a handle that knows the rest of the word.
-/
theorem access_done {β : Type} {view : Idx → Priority → β}
    (merged : ∀ old idx p q, view (Idx.merge old p idx) q =
      if q = p then view idx q else view old q)
    {update : Update} {idx word done : Idx} {spurious : Bool}
    (access : update.access p idx word spurious = (done, none))
    (alone : update = .store → ∀ q, q ≠ p → view idx q = view word q)
    (q : Priority) :
    view done q = if q = p then view idx q else view word q := by
  cases update with
  | store =>
      cases access
      split
      · rfl
      · rename_i other
        exact alone rfl q other
  | load => cases access
  | swap old =>
      rw [Update.access] at access
      split at access
      · rename_i unchanged
        cases access
        rw [merged, unchanged.1]
      · cases access

/-- An update that is not done goes on in the loop. -/
theorem ne_store_of_access {update next : Update} {idx word kept : Idx}
    {spurious : Bool}
    (access : update.access p idx word spurious = (kept, some next)) :
    next ≠ .store := by
  rintro rfl
  cases update with
  | store => cases access
  | load => cases access
  | swap old =>
      rw [Update.access] at access
      split at access
      · cases access
      · cases access

theorem lane_publish (own : ring.kind.writer p = h) {update : Update}
    (point : (ring.writers h).point = .update p update) {word : Idx}
    (index : ∀ q, word.index q =
      if q = p then
        (ring.writers h).handle.localIdxW.index q
      else
        ring.inner.idxW.index q)
    (booked : ∀ q, word.booked q =
      if q = p then
        (ring.writers h).handle.localIdxW.booked q
      else
        ring.inner.idxW.booked q) :
    (ring.publish h p word).lane =
      Priority.update ring.lane p (ring.lane p).publish := by
  funext q
  have kind : ((ring.setIdxW word).setLog p
    { ring.log p with
      pushed := (ring.log p).pushed ++ (ring.log p).pending.toList
      pending := none }).kind = ring.kind := rfl
  rw [publish, lane_setWriter, kind, lane_setLog, lane_setIdxW, index,
    booked]
  by_cases same : q = p
  · subst same
    subst own
    simp [lane, Exchange.publish, WriterPoint.marks,
      WriterPoint.publishes, point]
  · rw [Priority.update_other _ same]
    split
    · rename_i shared
      simp [lane, setIdxW, shared, point, same, WriterPoint.marks,
        WriterPoint.publishes]
    · simp [lane, setIdxW]

/-- A word with one owner shows what the owner counts elsewhere. -/
theorem Sound.alone (sound : ring.Sound)
    (own : ∀ q, ring.kind.writer q = h) {update : Update}
    (point : (ring.writers h).point = .update p update) (q : Priority)
    (other : q ≠ p) :
    (ring.writers h).handle.localIdxW.index q = ring.inner.idxW.index q ∧
      (ring.writers h).handle.localIdxW.booked q =
        ring.inner.idxW.booked q := by
  have lane := sound.lanes q
  have settled : (ring.lane q).marking = false := by
    simp [Shared.lane, own, point, WriterPoint.marks]
  have quiet : (ring.lane q).publishing = false := by
    simpa [Shared.lane, own, point, WriterPoint.publishes, eq_comm]
      using other
  have index := lane.ownWritten_eq quiet
  have marked := lane.marked settled quiet
  simp only [Shared.lane, own] at index marked
  exact ⟨index, marked.symm⟩

theorem Sound.updateIdxW (sound : ring.Sound) {update : Update}
    (point : (ring.writers h).point = .update p update)
    (spurious : Bool) :
    Stepped ring (ring.updateIdxW h p update spurious) (some p) := by
  have writing := sound.writing h
  rw [point] at writing
  rcases writing with ⟨own, all⟩
  rw [Shared.updateIdxW]
  cases access : update.access p (ring.writers h).handle.localIdxW
      ring.inner.idxW spurious with
  | mk word next =>
      cases next with
      | some next =>
          apply sound.writerGoes
          · rw [point]
            rfl
          · rw [point]
            rfl
          · refine ⟨own, fun store => ?_⟩
            exact absurd store (ne_store_of_access access)
      | none =>
          have lanes := lane_publish own point
            (access_done Idx.index_merge access fun store q other =>
              (sound.alone (all store) point q other).1)
            (access_done Idx.booked_merge access fun store q other =>
              (sound.alone (all store) point q other).2)
          refine Stepped.of_writer sound rfl rfl (setWriter_other _) rfl
            (moves_update lanes (.publish ?_)) (looks_update lanes) ?_
          · simp [lane, own, point, WriterPoint.publishes]
          · dsimp only
            rw [publish, setWriter_same]
            trivial

/-- Each access of a writer works at the priority of its operation. -/
theorem Sound.writerStep (sound : ring.Sound) {spurious : Bool}
    (stepped : ring.writerStep h spurious = some after) :
    Stepped ring after (ring.writers h).point.priority := by
  unfold Shared.writerStep at stepped
  split at stepped
  · cases stepped
  · rename_i point
    cases stepped
    rw [point]
    exact sound.loadIdxR point
  · rename_i point
    cases stepped
    rw [point]
    exact sound.writeElem point
  · rename_i point
    cases stepped
    rw [point]
    exact sound.markBooked point
  · rename_i point
    cases stepped
    rw [point]
    exact sound.updateIdxW point spurious

/-! ## The steps of a reader -/

theorem scan_releases (handle : RingBufferReader)
    (priorities : List Priority) :
    (handle.scan priorities).releases = fun _ => false := by
  cases priorities with
  | nil => rfl
  | cons p rest =>
      rw [RingBufferReader.scan]
      split
      · rfl
      · rfl

/-- A reader finds its way through its own priorities. -/
theorem readerAt_scan {priorities : List Priority}
    (own : ∀ q ∈ priorities, ring.kind.reader q = h) :
    ring.ReaderAt h ((ring.readers h).handle.scan priorities) := by
  cases priorities with
  | nil => trivial
  | cons p rest =>
      rw [List.forall_mem_cons] at own
      rw [RingBufferReader.scan]
      split
      · exact List.forall_mem_cons.2 own
      · rename_i shows
        refine ⟨own.1, ?_⟩
        exact (isEmpty_eq_false _ (congrArg _ own.1)).1
          (Bool.eq_false_of_not_eq_true shows)

theorem Sound.pullFrom (sound : ring.Sound) {priorities : List Priority}
    (own : ∀ q ∈ priorities, ring.kind.reader q = h)
    (stepped : ring.pullFrom h priorities = some after) :
    Stepped ring after none := by
  unfold Shared.pullFrom at stepped
  dsimp only at stepped
  split at stepped
  · rename_i idle
    cases stepped
    apply sound.readerGoes
    · rw [idle, scan_releases]
      rfl
    · exact readerAt_scan own
  · cases stepped

theorem Sound.pull (sound : ring.Sound)
    (stepped : ring.pull = some after) : Stepped ring after none := by
  unfold Shared.pull at stepped
  split at stepped
  · cases stepped
  · rename_i other
    apply sound.pullFrom _ stepped
    intro q _
    cases kind : ring.kind with
    | spmc => exact absurd kind other
    | spsc => rfl
    | mpsc => rfl

theorem Sound.pullPriority (sound : ring.Sound)
    (stepped : ring.pullPriority p = some after) :
    Stepped ring after none := by
  apply sound.pullFrom _ stepped
  intro q member
  rw [List.mem_singleton.1 member]

theorem lane_loadIdxW {rest : List Priority}
    (point : (ring.readers h).point = .load p rest) (q : Priority) :
    (ring.loadIdxW h p rest).lane q =
      if ring.kind.reader q = h then
        (ring.lane q).loadWritten
      else
        ring.lane q := by
  rw [loadIdxW, lane_setReader]
  split
  · rename_i shared
    simp only [lane, shared, point, Exchange.loadWritten]
    split
    · rw [scan_releases]
      rfl
    · rfl
  · rfl

theorem Sound.loadIdxW (sound : ring.Sound) {rest : List Priority}
    (point : (ring.readers h).point = .load p rest) :
    Stepped ring (ring.loadIdxW h p rest) (some p) := by
  have reading := sound.reading h
  rw [point] at reading
  have own := List.forall_mem_cons.1 reading
  have lanes := lane_loadIdxW point
  have looks : ∀ q,
      (ring.lane q).Looks ((ring.loadIdxW h p rest).lane q) := by
    intro q
    rw [lanes]
    split
    · exact .loadWritten
    · exact .stay
  refine Stepped.of_reader sound rfl rfl rfl (setReader_other _)
    (fun q _ => .looks (looks q)) (fun q _ => looks q) ?_
  have handle : ((ring.loadIdxW h p rest).readers h).handle =
      { (ring.readers h).handle with cachedIdxW := ring.inner.idxW } := by
    rw [Shared.loadIdxW, setReader_same]
  have lands : ((ring.loadIdxW h p rest).readers h).point =
      if RingBuffer.isEmpty (ring.readers h).handle.localIdxR
          ring.inner.idxW p then
        ((ring.loadIdxW h p rest).readers h).handle.scan rest
      else
        .take p := by
    rw [handle, Shared.loadIdxW, setReader_same]
  rw [lands]
  split
  · exact readerAt_scan own.2
  · rename_i shows
    refine ⟨own.1, ?_⟩
    rw [lanes, if_pos own.1]
    have reader := own.1
    subst reader
    exact beq_eq_false_iff_ne.1 (Bool.eq_false_of_not_eq_true shows)

theorem lane_removeElem {idx : Idx}
    (here : idx.index p = (ring.lane p).ownRead) :
    (ring.removeElem p idx).lane =
      Priority.update ring.lane p
        ((ring.lane p).empty ring.inner.exponent) := by
  funext q
  by_cases same : q = p
  · subst same
    rw [Priority.update_same]
    simp only [removeElem, lane, setLog, RingBuffer.setElem,
      RingBuffer.getElem, Priority.update_same, Exchange.empty,
      Exchange.readerSlot, RingBuffer.slot, here]
  · rw [Priority.update_other _ same]
    simp only [removeElem, lane, setLog, RingBuffer.setElem,
      Priority.update_other _ same]

theorem lane_takeElem (own : ring.kind.reader p = h)
    (point : (ring.readers h).point = .take p) :
    (ring.takeElem h p).lane =
      Priority.update ring.lane p
        ((ring.lane p).take ring.inner.exponent) := by
  have emptied := lane_removeElem (congrArg
    (fun h => (ring.readers h).handle.localIdxR.index p) own.symm)
  have kind : (ring.removeElem p (ring.readers h).handle.localIdxR).kind =
    ring.kind := rfl
  funext q
  rw [takeElem, lane_setReader, kind, emptied]
  by_cases same : q = p
  · subst same
    subst own
    rw [Priority.update_same, Priority.update_same, if_pos rfl]
    simp [lane, Exchange.take, Exchange.empty, ReaderPoint.releases,
      Exchange.readerSlot]
  · rw [Priority.update_other _ same, Priority.update_other _ same]
    split
    · rename_i shared
      simp [lane, shared, point, same, ReaderPoint.releases]
    · rfl

theorem Sound.takeElem (sound : ring.Sound)
    (point : (ring.readers h).point = .take p) :
    Stepped ring (ring.takeElem h p) (some p) := by
  have reading := sound.reading h
  rw [point] at reading
  rcases reading with ⟨own, shows⟩
  have lanes := lane_takeElem own point
  refine Stepped.of_reader sound rfl rfl rfl (setReader_other _)
    (moves_update lanes (.take ?_ shows)) (looks_update lanes) ?_
  · simp [lane, own, point, ReaderPoint.releases]
  · rw [Shared.takeElem, setReader_same]
    exact readerAt_update own

theorem lane_release (own : ring.kind.reader p = h) {update : Update}
    (point : (ring.readers h).point = .update p update) {word : Idx}
    (index : ∀ q, word.index q =
      if q = p then
        (ring.readers h).handle.localIdxR.index q
      else
        ring.inner.idxR.index q) :
    (ring.release h p word).lane =
      Priority.update ring.lane p (ring.lane p).release := by
  funext q
  have kind : ((ring.setIdxR word).setLog p
    { ring.log p with released := (ring.log p).released + 1 }).kind =
      ring.kind := rfl
  rw [release, lane_setReader, kind, lane_setLog, lane_setIdxR, index]
  by_cases same : q = p
  · subst same
    subst own
    simp [lane, Exchange.release, ReaderPoint.releases]
  · rw [Priority.update_other _ same]
    split
    · rename_i shared
      simp [lane, setIdxR, shared, point, same, ReaderPoint.releases]
    · simp [lane, setIdxR]

theorem Sound.updateIdxR (sound : ring.Sound) {update : Update}
    (point : (ring.readers h).point = .update p update)
    (spurious : Bool) :
    Stepped ring (ring.updateIdxR h p update spurious) (some p) := by
  have reading := sound.reading h
  rw [point] at reading
  rcases reading with ⟨own, all⟩
  rw [Shared.updateIdxR]
  cases access : update.access p (ring.readers h).handle.localIdxR
      ring.inner.idxR spurious with
  | mk word next =>
      cases next with
      | some next =>
          apply sound.readerGoes
          · rw [point]
            rfl
          · refine ⟨own, fun store => ?_⟩
            exact absurd store (ne_store_of_access access)
      | none =>
          have alone : update = .store → ∀ q, q ≠ p →
              (ring.readers h).handle.localIdxR.index q =
                ring.inner.idxR.index q := by
            intro store q other
            have quiet : (ring.lane q).releasing = false := by
              simpa [lane, all store, point, ReaderPoint.releases, eq_comm]
                using other
            have lane := (sound.lanes q).ownRead_eq quiet
            simpa only [Shared.lane, all store] using lane
          have lanes := lane_release own point
            (access_done Idx.index_merge access alone)
          refine Stepped.of_reader sound rfl rfl rfl (setReader_other _)
            (moves_update lanes (.release ?_)) (looks_update lanes) ?_
          · simp [lane, own, point, ReaderPoint.releases]
          · dsimp only
            rw [release, setReader_same]
            trivial

/-- Each access of a reader works at the priority of its operation. -/
theorem Sound.readerStep (sound : ring.Sound) {spurious : Bool}
    (stepped : ring.readerStep h spurious = some after) :
    Stepped ring after (ring.readers h).point.priority := by
  unfold Shared.readerStep at stepped
  split at stepped
  · cases stepped
  · rename_i point
    cases stepped
    rw [point]
    exact sound.loadIdxW point
  · rename_i point
    cases stepped
    rw [point]
    exact sound.takeElem point
  · rename_i point
    cases stepped
    rw [point]
    exact sound.updateIdxR point spurious

/-! ## Runs -/

/-- The priority that an action works at. -/
def place (ring : Shared α) : Action α → Option Priority
  | .commit p => some p
  | .writer h _ => (ring.writers h).point.priority
  | .reader h _ => (ring.readers h).point.priority
  | _ => none

theorem Sound.step (sound : ring.Sound) {action : Action α}
    (admitted : ring.Admits action)
    (stepped : ring.step action = some after) :
    Stepped ring after (ring.place action) := by
  cases action with
  | push p t => exact sound.push admitted stepped
  | book p t => exact sound.book stepped
  | commit p => exact sound.commit stepped
  | writer h spurious => exact sound.writerStep stepped
  | pull => exact sound.pull stepped
  | pullPriority p => exact sound.pullPriority stepped
  | reader h spurious => exact sound.readerStep stepped

theorem sound_new (kind : Kind) (exponent : Nat) (small : exponent ≤ 7) :
    (new kind exponent small : Shared α).Sound where
  lanes p := by
    have lane : (new kind exponent small : Shared α).lane p =
        Exchange.new := by
      simp [Shared.lane, new, RingBuffer.new, Exchange.new,
        WriterPoint.marks, WriterPoint.publishes, ReaderPoint.releases]
    rw [lane]
    exact Exchange.sound_new
  writing _ := trivial
  reading _ := trivial

/-- The invariant holds along every run that pushes at no booked priority. -/
theorem sound_of_run {kind : Kind} {exponent : Nat}
    {small : exponent ≤ 7} {actions : List (Action α)}
    (admitted : Runs.Guarded step Admits (new kind exponent small) actions)
    (ran : Runs.run step (new kind exponent small) actions = some after) :
    after.Sound :=
  Runs.invariant (fun _ _ _ sound admitted stepped =>
    (sound.step admitted stepped).sound sound)
    (sound_new kind exponent small) admitted ran

end Shared
end RingBuf
end Thubo
