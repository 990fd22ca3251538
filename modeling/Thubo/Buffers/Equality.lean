import Thubo.Buffers.Snapshots

/-!
# Byte strings as their content

Two byte strings are compared by walking both lists of chunks in lock step,
and emptiness looks at the list of chunks only.  Both see the content as long
as no chunk is empty.  A chunk that is pushed is never empty, but the single
chunk that a byte string is made of may be.
-/

namespace Thubo

namespace Bytes

/-- What is left of a list of slices once some bytes are compared. -/
def advance (current : List UInt8) (rest : List (List UInt8))
    (cmpLen : Nat) : List (List UInt8) :=
  if cmpLen = current.length then
    rest
  else
    current.drop cmpLen :: rest

/-- The loop of `eq` over the slices that are left. -/
def eqSlices : List (List UInt8) → List (List UInt8) → Bool
  | [], [] => true
  | [], _ :: _ => false
  | _ :: _, [] => false
  | left :: lefts, right :: rights =>
      let cmpLen := min left.length right.length
      if left.take cmpLen ≠ right.take cmpLen then
        false
      else
        eqSlices (advance left lefts cmpLen) (advance right rights cmpLen)
termination_by lefts rights => lefts.length + rights.length
decreasing_by
  unfold advance
  split <;> split <;> simp only [List.length_cons] <;> omega

/-- `==`. -/
def eq (bytes other : Bytes) : Bool :=
  eqSlices (bytes.chunks.map Chunk.asSlice) (other.chunks.map Chunk.asSlice)

/-- The byte strings that the public interface builds. -/
inductive Built : Bytes → Prop where
  | new : Built .new
  /-- `single` and `From`. -/
  | single (chunk : Chunk) : Built (.single chunk)
  | push {bytes : Bytes} (built : Built bytes) (chunk : Chunk) :
      Built (bytes.push chunk)
  | extend {bytes : Bytes} (built : Built bytes) (chunks : List Chunk) :
      Built (chunks.foldl Bytes.push bytes)
  | view {bytes result : Bytes} {lower upper : Bound} (built : Built bytes)
      (viewed : bytes.view lower upper = .ok (some result)) : Built result
  /-- Some calls of a writer, which is dropped after them. -/
  | writer {bytes : Bytes} {calls : List WriterCall} {writer : BytesWriter}
      (built : Built bytes)
      (ran : Runs.run WriterCall.copiedStep bytes.writer calls =
        some writer) : Built writer.drop
  | clear {bytes : Bytes} (built : Built bytes) : Built bytes.clear

/-! ## Comparing slices -/

theorem advance_flatten (current : List UInt8) (rest : List (List UInt8))
    (cmpLen : Nat) :
    (advance current rest cmpLen).flatten =
      current.drop cmpLen ++ rest.flatten := by
  unfold advance
  split
  · rename_i all
    rw [all, List.drop_length, List.nil_append]
  · rfl

/-- What is left to compare has no empty slice. -/
theorem advance_solid {current : List UInt8} {rest : List (List UInt8)}
    (solid : ∀ slice ∈ rest, slice ≠ []) {cmpLen : Nat}
    (bounded : cmpLen ≤ current.length) :
    ∀ slice ∈ advance current rest cmpLen, slice ≠ [] := by
  unfold advance
  split
  · exact solid
  · rename_i some_left
    intro slice member
    rcases List.mem_cons.1 member with rfl | later
    · intro nothing
      have length := congrArg List.length nothing
      rw [List.length_drop, List.length_nil] at length
      omega
    · exact solid slice later

/-- Equal contents start with equal bytes, and then go on equally. -/
theorem flatten_eq_iff (left right : List UInt8)
    (lefts rights : List (List UInt8)) {cmpLen : Nat}
    (bounded : cmpLen ≤ left.length) (bounded' : cmpLen ≤ right.length) :
    (left :: lefts).flatten = (right :: rights).flatten ↔
      left.take cmpLen = right.take cmpLen ∧
        (advance left lefts cmpLen).flatten =
          (advance right rights cmpLen).flatten := by
  have cut (slice : List UInt8) (rest : List (List UInt8)) :
      (slice :: rest).flatten =
        slice.take cmpLen ++ (slice.drop cmpLen ++ rest.flatten) := by
    rw [← List.append_assoc, List.take_append_drop]
    rfl
  rw [advance_flatten, advance_flatten, cut, cut]
  constructor
  · intro same
    apply List.append_inj same
    rw [List.length_take, List.length_take, Nat.min_eq_left bounded,
      Nat.min_eq_left bounded']
  · rintro ⟨front, back⟩
    rw [front, back]

theorem eqSlices_cons (left right : List UInt8)
    (lefts rights : List (List UInt8)) :
    eqSlices (left :: lefts) (right :: rights) = true ↔
      left.take (min left.length right.length) =
          right.take (min left.length right.length) ∧
        eqSlices (advance left lefts (min left.length right.length))
          (advance right rights (min left.length right.length)) = true := by
  rw [eqSlices]
  by_cases same : left.take (min left.length right.length) =
      right.take (min left.length right.length)
  · simp [same]
  · simp [same]

/-- Slices none of which is empty are compared by their content. -/
theorem eqSlices_solid (lefts rights : List (List UInt8))
    (solid : ∀ slice ∈ lefts, slice ≠ [])
    (solid' : ∀ slice ∈ rights, slice ≠ []) :
    eqSlices lefts rights = true ↔ lefts.flatten = rights.flatten := by
  induction lefts, rights using eqSlices.induct with
  | case1 => simp [eqSlices]
  | case2 right rights => simp_all [eqSlices]
  | case3 left lefts => simp_all [eqSlices]
  | case4 left lefts right rights cmpLen differ =>
      rw [eqSlices_cons, flatten_eq_iff left right lefts rights
        (Nat.min_le_left _ _) (Nat.min_le_right _ _)]
      exact iff_of_false (fun same => differ same.1)
        (fun same => differ same.1)
  | case5 left lefts right rights cmpLen same hypothesis =>
      rw [eqSlices_cons, flatten_eq_iff left right lefts rights
        (Nat.min_le_left _ _) (Nat.min_le_right _ _)]
      apply and_congr_right
      intro _
      rw [List.forall_mem_cons] at solid solid'
      exact hypothesis
        (advance_solid solid.2 (Nat.min_le_left _ _))
        (advance_solid solid'.2 (Nat.min_le_right _ _))

/-- The first slice on each side may be empty. -/
theorem eqSlices_tight (left right : List UInt8)
    {lefts rights : List (List UInt8)}
    (solid : ∀ slice ∈ lefts, slice ≠ [])
    (solid' : ∀ slice ∈ rights, slice ≠ []) :
    eqSlices (left :: lefts) (right :: rights) = true ↔
      (left :: lefts).flatten = (right :: rights).flatten := by
  rw [eqSlices_cons, flatten_eq_iff left right lefts rights
    (Nat.min_le_left _ _) (Nat.min_le_right _ _)]
  apply and_congr_right
  intro _
  exact eqSlices_solid _ _
    (advance_solid solid (Nat.min_le_left _ _))
    (advance_solid solid' (Nat.min_le_right _ _))

/-! ## Where an empty chunk can be -/

/-- Only the first chunk may be empty. -/
def Tight (bytes : Bytes) : Prop :=
  ∀ chunk ∈ bytes.chunks.tail, 0 < chunk.len

/-- The byte string is a single empty chunk. -/
def Hollow (bytes : Bytes) : Prop :=
  ∃ chunk, bytes.chunks = [chunk] ∧ chunk.len = 0

theorem Tight.push {bytes : Bytes} (tight : bytes.Tight) (chunk : Chunk) :
    (bytes.push chunk).Tight := by
  unfold Bytes.push
  split
  · exact tight
  · rename_i nonempty
    intro other member
    have filled : 0 < chunk.len := by
      simp only [Chunk.isEmpty, beq_iff_eq] at nonempty
      omega
    cases chunks : bytes.chunks with
    | nil =>
        rw [chunks] at member
        cases member
    | cons first rest =>
        rw [chunks, List.cons_append, List.tail_cons] at member
        rcases List.mem_append.1 member with old | new
        · apply tight
          rw [chunks]
          exact old
        · rwa [List.mem_singleton.1 new]

theorem Tight.foldl_push {bytes : Bytes} (tight : bytes.Tight)
    (chunks : List Chunk) : (chunks.foldl Bytes.push bytes).Tight := by
  induction chunks generalizing bytes with
  | nil => exact tight
  | cons chunk chunks hypothesis => exact hypothesis (tight.push chunk)

end Bytes

namespace BytesWriter

variable {state after : BytesWriter}

theorem flush_tight (tight : state.inner.Tight) :
    state.flush.inner.Tight := by
  unfold flush
  dsimp only
  split
  · exact tight
  · exact tight.push _

/-- A call keeps every later chunk nonempty. -/
theorem copiedStep_tight (tight : state.inner.Tight) {call : WriterCall}
    (stepped : call.copiedStep state = some after) :
    after.inner.Tight := by
  have writing (bytes : List UInt8)
      (ran : (writeExact bytes state).leaves = some after) :
      after.inner.Tight := by
    unfold writeExact at ran
    by_cases empty : bytes = []
    · rw [if_pos empty] at ran
      cases ran
      exact tight
    · rw [if_neg empty] at ran
      cases ran
      exact tight
  cases call with
  | write bytes => exact writing bytes stepped
  | writeExact bytes => exact writing bytes stepped
  | writeU8 byte => exact writing [byte] stepped
  | ioWrite bytes =>
      unfold WriterCall.copiedStep WriterCall.copied at stepped
      by_cases empty : bytes = []
      · simp only [if_pos empty] at stepped
        cases stepped
        exact tight
      · simp only [if_neg empty] at stepped
        exact writing bytes stepped
  | withSlot len written =>
      unfold WriterCall.copiedStep WriterCall.copied withSlot at stepped
      simp only [Cursor.get_bind] at stepped
      by_cases fits : written.length ≤ len
      · by_cases empty : written = []
        · simp only [if_pos fits, Cursor.set_bind, if_pos empty] at stepped
          cases stepped
          exact tight
        · simp only [if_pos fits, Cursor.set_bind, if_neg empty] at stepped
          cases stepped
          exact tight
      · rw [if_neg fits] at stepped
        cases stepped
  | writeChunk slice =>
      unfold WriterCall.copiedStep WriterCall.copied writeChunk at stepped
      simp only [Cursor.get_bind] at stepped
      cases empty : slice.isEmpty with
      | true =>
          rw [empty, if_pos rfl] at stepped
          cases stepped
          exact flush_tight tight
      | false =>
          rw [empty, if_neg Bool.false_ne_true] at stepped
          cases stepped
          exact (flush_tight tight).push slice

end BytesWriter

namespace BytesReader

/-- The iterator yields a view of the first slice and goes on. -/
theorem run_cons_cases {slice : Chunk} {rest chunks : List Chunk}
    {cursor after : BytesPos} {len : Nat}
    (ran : BytesSliceIterator.run (slice :: rest) cursor (len + 1) =
      .ok (chunks, after)) :
    ∃ chunk later middle, chunks = chunk :: later ∧
      chunk.len = min (len + 1) (slice.len - cursor.byte) ∧
      (middle.byte = 0 ∨ len + 1 < slice.len - cursor.byte) ∧
      BytesSliceIterator.run rest middle
        (len + 1 - (slice.len - cursor.byte)) = .ok (later, after) := by
  by_cases ordered : cursor.byte ≤ slice.len
  · rcases next_cases (len + 1) ordered with ⟨chunk, length, _, stepped⟩
    rw [run_cons, stepped, ok_bind] at ran
    dsimp only at ran
    generalize middleIs : (if len + 1 < slice.len - cursor.byte then
      (⟨cursor.slice, cursor.byte + (len + 1)⟩ : BytesPos)
      else ⟨cursor.slice + 1, 0⟩) = middle at ran
    cases inner : BytesSliceIterator.run rest middle
        (len + 1 - (slice.len - cursor.byte)) with
    | error fault =>
        rw [inner] at ran
        cases ran
    | ok result =>
        rw [inner] at ran
        cases ran
        refine ⟨chunk, result.1, middle, rfl, length, ?_, inner⟩
        by_cases less : len + 1 < slice.len - cursor.byte
        · exact Or.inr less
        · rw [if_neg less] at middleIs
          exact Or.inl (congrArg BytesPos.byte middleIs.symm)
  · rw [run_cons, BytesSliceIterator.next, if_neg ordered] at ran
    cases ran

/-- Nonempty slices yield nonempty chunks. -/
theorem run_solid {slices chunks : List Chunk} {cursor after : BytesPos}
    {len : Nat} (solid : ∀ slice ∈ slices, 0 < slice.len)
    (start : cursor.byte = 0 ∨ len = 0)
    (ran : BytesSliceIterator.run slices cursor len = .ok (chunks, after)) :
    ∀ chunk ∈ chunks, 0 < chunk.len := by
  induction slices generalizing cursor len chunks with
  | nil =>
      cases len with
      | zero =>
          cases ran
          exact List.forall_mem_nil _
      | succ len => cases ran
  | cons slice rest hypothesis =>
      cases len with
      | zero =>
          cases ran
          exact List.forall_mem_nil _
      | succ len =>
          rcases run_cons_cases ran with
            ⟨chunk, later, middle, rfl, length, start', inner⟩
          rw [List.forall_mem_cons] at solid ⊢
          constructor
          · omega
          · refine hypothesis solid.2 ?_ inner
            rcases start' with start' | less
            · exact Or.inl start'
            · exact Or.inr (by omega)

/-- After the first chunk, the iterator yields nonempty chunks. -/
theorem run_tight {slices chunks : List Chunk} {cursor after : BytesPos}
    {len : Nat} (solid : ∀ slice ∈ slices.tail, 0 < slice.len)
    (ran : BytesSliceIterator.run slices cursor len = .ok (chunks, after)) :
    ∀ chunk ∈ chunks.tail, 0 < chunk.len := by
  cases len with
  | zero =>
      cases slices <;>
        · cases ran
          exact List.forall_mem_nil _
  | succ len =>
      cases slices with
      | nil => cases ran
      | cons slice rest =>
          rcases run_cons_cases ran with
            ⟨chunk, later, middle, rfl, _, start, inner⟩
          refine run_solid solid ?_ inner
          rcases start with start | less
          · exact Or.inl start
          · exact Or.inr (by omega)

theorem skip_inner {reader after : BytesReader} {offset : Nat}
    (skipped : skip offset reader = .ok () after) :
    after.inner = reader.inner := by
  unfold skip at skipped
  simp only [Cursor.get_bind] at skipped
  cases walked : skipSlices reader.unread reader.cursor offset with
  | error fault =>
      rw [walked] at skipped
      cases skipped
  | ok result =>
      rw [walked] at skipped
      rcases result with ⟨done, cursor⟩
      cases done <;>
        · cases skipped
          try rfl

theorem readChunks_tight {reader after : BytesReader} {len : Nat}
    {chunks : List Chunk} (tight : reader.inner.Tight)
    (read : readChunks len reader = .ok chunks after) :
    (Bytes.mk chunks).Tight := by
  have solid : ∀ slice ∈ reader.unread.tail, 0 < slice.len := by
    intro slice member
    apply tight
    rw [unread, List.tail_drop, ← List.drop_tail] at member
    exact List.mem_of_mem_drop member
  unfold readChunks at read
  simp only [Cursor.get_bind] at read
  cases left : reader.remaining with
  | error fault =>
      rw [left] at read
      cases read
  | ok remaining =>
      rw [left, Cursor.lift_ok, Cursor.pure_bind] at read
      by_cases few : remaining < len
      · rw [if_pos few] at read
        cases read
      · rw [if_neg few] at read
        cases ran : BytesSliceIterator.run reader.unread reader.cursor
            len with
        | error fault =>
            rw [ran] at read
            cases read
        | ok result =>
            rw [ran] at read
            cases read
            exact run_tight solid ran

end BytesReader

namespace Bytes

theorem view_tight {bytes result : Bytes} (tight : bytes.Tight)
    {lower upper : Bound}
    (viewed : bytes.view lower upper = .ok (some result)) :
    result.Tight := by
  unfold view at viewed
  cases startIs : lower.startDelta with
  | error fault =>
      rw [startIs] at viewed
      cases viewed
  | ok start =>
      cases stopIs : upper.endDelta bytes.len with
      | error fault =>
          rw [startIs, stopIs] at viewed
          cases viewed
      | ok stop =>
          rw [startIs, stopIs, ok_bind, ok_bind] at viewed
          cases skipped : BytesReader.skip start bytes.reader with
          | fault fault =>
              rw [skipped] at viewed
              cases viewed
          | err reader =>
              rw [skipped] at viewed
              cases viewed
          | ok value reader =>
              have inner := BytesReader.skip_inner skipped
              rw [skipped] at viewed
              dsimp only at viewed
              cases lenIs : checkedSub stop start with
              | error fault =>
                  rw [lenIs] at viewed
                  cases viewed
              | ok len =>
                  rw [lenIs, ok_bind] at viewed
                  cases read : BytesReader.readChunks len reader with
                  | fault fault =>
                      rw [read] at viewed
                      cases viewed
                  | err reader =>
                      rw [read] at viewed
                      cases viewed
                  | ok chunks later =>
                      rw [read] at viewed
                      cases viewed
                      apply BytesReader.readChunks_tight _ read
                      rw [inner]
                      exact tight

/-- Only the first chunk of a byte string can be empty. -/
theorem Built.tight {bytes : Bytes} (built : Built bytes) :
    bytes.Tight := by
  induction built with
  | new => exact List.forall_mem_nil _
  | single chunk => exact List.forall_mem_nil _
  | push _ chunk tight => exact tight.push chunk
  | extend _ chunks tight => exact tight.foldl_push chunks
  | view _ viewed tight => exact view_tight tight viewed
  | writer _ ran tight =>
      exact BytesWriter.flush_tight (Runs.invariant_of_step
        (fun _ _ _ tight stepped =>
          BytesWriter.copiedStep_tight tight stepped) tight ran)
  | clear _ _ => exact List.forall_mem_nil _

/-! ## Content -/

/-- Equality and emptiness of two byte strings are those of the content. -/
structure IsContent (bytes other : Bytes) : Prop where
  eq_iff : bytes.eq other = true ↔ bytes.toVec = other.toVec
  isEmpty_iff_len : bytes.isEmpty = true ↔ bytes.len = 0
  len_iff : bytes.len = 0 ↔ bytes.toVec = []
  other_isEmpty_iff_len : other.isEmpty = true ↔ other.len = 0
  other_len_iff : other.len = 0 ↔ other.toVec = []

theorem len_eq_zero_iff (bytes : Bytes) :
    bytes.len = 0 ↔ bytes.toVec = [] := by
  rw [← bytes.length_toVec, List.length_eq_zero_iff]

/-- A byte string without bytes has no chunks or is a single empty one. -/
theorem Tight.cases {bytes : Bytes} (tight : bytes.Tight) :
    bytes.chunks = [] ∨ bytes.Hollow ∨ bytes.len ≠ 0 := by
  rcases bytes with ⟨chunks⟩
  cases chunks with
  | nil => exact Or.inl rfl
  | cons first rest =>
      by_cases filled : first.len = 0
      · cases rest with
        | nil => exact Or.inr (Or.inl ⟨first, rfl, filled⟩)
        | cons second rest =>
            have later : 0 < second.len := tight second List.mem_cons_self
            refine Or.inr (Or.inr ?_)
            simp only [len, List.map_cons, List.sum_cons]
            omega
      · refine Or.inr (Or.inr ?_)
        simp only [len, List.map_cons, List.sum_cons]
        omega

theorem Hollow.len_eq {bytes : Bytes} (hollow : bytes.Hollow) :
    bytes.len = 0 := by
  rcases hollow with ⟨chunk, chunks, empty⟩
  rw [len, chunks, List.map_singleton, List.sum_singleton, empty]

/-- Emptiness is that of the content, except for a single empty chunk. -/
theorem Tight.isEmpty_iff {bytes : Bytes} (tight : bytes.Tight) :
    (bytes.isEmpty = true ↔ bytes.len = 0) ↔ ¬ bytes.Hollow := by
  constructor
  · intro same hollow
    have empty := same.2 hollow.len_eq
    rcases hollow with ⟨chunk, chunks, _⟩
    rw [isEmpty, chunks] at empty
    cases empty
  · intro filled
    rcases tight.cases with nothing | hollow | some_bytes
    · rw [isEmpty, len, nothing]
      exact iff_of_true rfl rfl
    · exact absurd hollow filled
    · refine iff_of_false ?_ some_bytes
      intro empty
      apply some_bytes
      rw [len, List.isEmpty_iff.1 empty]
      rfl

/-- The slices after the first one are nonempty. -/
theorem solid_slices {chunks : List Chunk}
    (solid : ∀ chunk ∈ chunks, 0 < chunk.len) :
    ∀ slice ∈ chunks.map Chunk.asSlice, slice ≠ [] := by
  intro slice member
  rcases List.mem_map.1 member with ⟨chunk, present, rfl⟩
  rw [← List.length_pos_iff, Chunk.length_asSlice]
  exact solid chunk present

/-- A byte string with a chunk and no empty one alone has bytes. -/
theorem toVec_ne_nil {first : Chunk} {rest : List Chunk}
    (tight : (Bytes.mk (first :: rest)).Tight)
    (filled : ¬ (Bytes.mk (first :: rest)).Hollow) :
    (Bytes.mk (first :: rest)).toVec ≠ [] := by
  intro nothing
  have empty := (tight.isEmpty_iff.2 filled).2
    ((len_eq_zero_iff _).2 nothing)
  cases empty

/-- Byte strings that are no single empty chunk are compared by content. -/
theorem eq_iff_toVec {bytes other : Bytes} (tight : bytes.Tight)
    (tight' : other.Tight) (filled : ¬ bytes.Hollow)
    (filled' : ¬ other.Hollow) :
    bytes.eq other = true ↔ bytes.toVec = other.toVec := by
  rcases bytes with ⟨lefts⟩
  rcases other with ⟨rights⟩
  cases lefts with
  | nil =>
      cases rights with
      | nil => exact iff_of_true (by simp [eq, eqSlices]) rfl
      | cons right rights =>
          exact iff_of_false (by simp [eq, eqSlices])
            (toVec_ne_nil tight' filled').symm
  | cons left lefts =>
      cases rights with
      | nil =>
          exact iff_of_false (by simp [eq, eqSlices])
            (toVec_ne_nil tight filled)
      | cons right rights =>
          exact eqSlices_tight left.asSlice right.asSlice
            (solid_slices tight) (solid_slices tight')

/-- A byte string is its content unless it is a single empty chunk. -/
theorem isContent_iff (bytes other : Bytes) (built : Built bytes)
    (built' : Built other) :
    IsContent bytes other ↔ ¬ bytes.Hollow ∧ ¬ other.Hollow := by
  have tight := built.tight
  have tight' := built'.tight
  constructor
  · intro content
    exact ⟨tight.isEmpty_iff.1 content.isEmpty_iff_len,
      tight'.isEmpty_iff.1 content.other_isEmpty_iff_len⟩
  · rintro ⟨filled, filled'⟩
    exact ⟨eq_iff_toVec tight tight' filled filled',
      tight.isEmpty_iff.2 filled, bytes.len_eq_zero_iff,
      tight'.isEmpty_iff.2 filled', other.len_eq_zero_iff⟩

/-- Two byte strings cut in different places. -/
theorem isContent_iff_cuts :
    IsContent (push (single (.ofBuf [1])) (.ofBuf [2, 3]))
      (push (single (.ofBuf [1, 2])) (.ofBuf [3])) := by
  apply (isContent_iff _ _ (.push (.single _) _) (.push (.single _) _)).2
  constructor
  · rintro ⟨chunk, chunks, _⟩
    cases chunks
  · rintro ⟨chunk, chunks, _⟩
    cases chunks

/-- A single empty chunk has no bytes and is not empty. -/
theorem single_empty_not_content :
    Built (.single (.ofBuf [])) ∧ Built .new ∧
      ¬ IsContent (.single (.ofBuf [])) .new := by
  refine ⟨.single _, .new, ?_⟩
  intro content
  have empty := content.isEmpty_iff_len.2 rfl
  cases empty

end Bytes
end Thubo
