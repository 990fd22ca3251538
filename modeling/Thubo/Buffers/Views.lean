import Thubo.Buffers.Seek

/-!
# Views

A view of a range is the slice of the content that the range names, and
nothing when the range runs backwards or past the end.  The arithmetic on the
bounds comes before any test, so a bound next to the largest index, a range
that runs backwards or an offset far outside the buffer overflows instead.
-/

namespace Thubo

/-! ## Ranges -/

namespace Bound

/-- Where a range with this start bound begins. -/
def startsAt : Bound → Nat
  | .included index => index
  | .excluded index => index + 1
  | .unbounded => 0

/-- Where a range with this end bound stops, in a content of some length. -/
def stopsAt (len : Nat) : Bound → Nat
  | .included index => index + 1
  | .excluded index => index
  | .unbounded => len

/-- The start bound can be counted up where it is excluded. -/
def StartFits : Bound → Prop
  | .excluded index => index < usizeMax
  | _ => True

/-- The end bound can be counted up where it is included. -/
def StopFits : Bound → Prop
  | .included index => index < usizeMax
  | _ => True

instance (bound : Bound) : Decidable bound.StartFits := by
  cases bound <;> unfold StartFits <;> infer_instance

instance (bound : Bound) : Decidable bound.StopFits := by
  cases bound <;> unfold StopFits <;> infer_instance

theorem startDelta_eq {bound : Bound} (fits : bound.StartFits) :
    bound.startDelta = .ok bound.startsAt := by
  cases bound with
  | excluded index => exact if_pos fits
  | included index => rfl
  | unbounded => rfl

theorem startDelta_overflow {bound : Bound} (large : ¬ bound.StartFits) :
    bound.startDelta = .error .arithmetic := by
  cases bound with
  | excluded index => exact if_neg large
  | included index => exact absurd trivial large
  | unbounded => exact absurd trivial large

theorem endDelta_eq {bound : Bound} (fits : bound.StopFits) (len : Nat) :
    bound.endDelta len = .ok (bound.stopsAt len) := by
  cases bound with
  | included index => exact if_pos fits
  | excluded index => rfl
  | unbounded => rfl

theorem endDelta_overflow {bound : Bound} (large : ¬ bound.StopFits)
    (len : Nat) : bound.endDelta len = .error .arithmetic := by
  cases bound with
  | included index => exact if_neg large
  | excluded index => exact absurd trivial large
  | unbounded => exact absurd trivial large

end Bound

/-- The slice of a content that a range names. -/
def sliced (content : List UInt8) (lower upper : Bound) :
    Option (List UInt8) :=
  let start := lower.startsAt
  let stop := upper.stopsAt content.length
  if start ≤ stop ∧ stop ≤ content.length then
    some ((content.drop start).take (stop - start))
  else
    none

/-! ## Views of a chunk -/

namespace Chunk

/-- The content of a view. -/
def viewed (chunk : Chunk) (lower upper : Bound) :
    Except Fault (Option (List UInt8)) :=
  (chunk.view lower upper).map (Option.map asSlice)

/-- The bounds can be counted up and added to the start of the window. -/
structure Clear (chunk : Chunk) (lower upper : Bound) : Prop where
  start : lower.StartFits
  stop : upper.StopFits
  sums : (lower.startsAt ≤ upper.stopsAt chunk.len ∧
      upper.stopsAt chunk.len ≤ chunk.len) ∨
    (chunk.start + lower.startsAt ≤ usizeMax ∧
      chunk.start + upper.stopsAt chunk.len ≤ usizeMax)

/-- What a view does once its bounds are counted. -/
theorem view_eq {chunk : Chunk} {lower upper : Bound}
    (start : lower.StartFits) (stop : upper.StopFits) :
    chunk.view lower upper =
      chunk.view (.included lower.startsAt)
        (.excluded (upper.stopsAt chunk.len)) := by
  simp only [view, Bound.startDelta_eq start, Bound.endDelta_eq stop]
  rfl

/-- A view outside the window is nothing unless a sum overflows. -/
theorem view_outside {chunk : Chunk} {lower upper : Nat}
    (outside : ¬ (lower ≤ upper ∧ upper ≤ chunk.len)) :
    chunk.view (.included lower) (.excluded upper) =
      if chunk.start + lower ≤ usizeMax ∧
          chunk.start + upper ≤ usizeMax then
        .ok none
      else
        .error .arithmetic := by
  have outer : chunk.view (.included lower) (.excluded upper) = (do
      let _ ← checkedAdd chunk.start lower
      let _ ← checkedAdd chunk.start upper
      return none) := dif_neg outside
  rw [outer]
  unfold checkedAdd
  by_cases first : chunk.start + lower ≤ usizeMax
  · by_cases second : chunk.start + upper ≤ usizeMax
    · simp only [first, second, if_true, and_self]
      rfl
    · simp only [first, second, if_true, if_false, and_false]
      rfl
  · simp only [first, if_false, false_and]
    rfl

/-- A view is the slice exactly when its arithmetic does not overflow. -/
theorem viewed_iff (chunk : Chunk) (lower upper : Bound) :
    chunk.viewed lower upper = .ok (sliced chunk.asSlice lower upper) ↔
      chunk.Clear lower upper := by
  by_cases start : lower.StartFits
  · by_cases stop : upper.StopFits
    · rw [viewed, view_eq start stop, sliced, length_asSlice]
      by_cases inside : lower.startsAt ≤ upper.stopsAt chunk.len ∧
          upper.stopsAt chunk.len ≤ chunk.len
      · rcases chunk.view_of_le _ _ inside.1 inside.2 with
          ⟨result, found, slice, _⟩
        rw [found, if_pos inside]
        simp only [Except.map, Option.map_some, slice, true_iff]
        exact ⟨start, stop, Or.inl inside⟩
      · rw [view_outside inside, if_neg inside]
        constructor
        · intro same
          split at same
          · rename_i sums
            exact ⟨start, stop, Or.inr sums⟩
          · cases same
        · rintro ⟨_, _, within | sums⟩
          · exact absurd within inside
          · rw [if_pos sums]
            rfl
    · constructor
      · intro same
        rw [viewed, view, Bound.startDelta_eq start,
          Bound.endDelta_overflow stop] at same
        cases same
      · exact fun clear => absurd clear.stop stop
  · constructor
    · intro same
      rw [viewed, view, Bound.startDelta_overflow start] at same
      cases same
    · exact fun clear => absurd clear.start start

end Chunk

/-! ## Views of a byte string -/

namespace Bytes

/-- The content of a view. -/
def viewed (bytes : Bytes) (lower upper : Bound) :
    Except Fault (Option (List UInt8)) :=
  (bytes.view lower upper).map (Option.map toVec)

/-- The bounds can be counted up and subtracted where that is done. -/
structure Clear (bytes : Bytes) (lower upper : Bound) : Prop where
  start : lower.StartFits
  stop : upper.StopFits
  ordered : lower.startsAt ≤ upper.stopsAt bytes.len ∨
    bytes.len < lower.startsAt

theorem view_eq {bytes : Bytes} {lower upper : Bound}
    (start : lower.StartFits) (stop : upper.StopFits) :
    bytes.view lower upper =
      bytes.view (.included lower.startsAt)
        (.excluded (upper.stopsAt bytes.len)) := by
  simp only [view, Bound.startDelta_eq start, Bound.endDelta_eq stop]
  rfl

/-- A view that starts past the end is nothing. -/
theorem view_past {bytes : Bytes} {lower upper : Nat}
    (past : bytes.len < lower) :
    bytes.view (.included lower) (.excluded upper) = .ok none := by
  have short : bytes.reader.rest.length < lower := by
    rw [BytesReader.rest_reader, length_toVec]
    exact past
  have skipped := BytesReader.skip_short
    (BytesReader.placed_reader bytes) short
  simp only [view, Bound.startDelta, Bound.endDelta, ok_bind, skipped]
  rfl

/-- A view that starts inside and ends past the end is nothing. -/
theorem view_beyond {bytes : Bytes} {lower upper : Nat}
    (inside : lower ≤ bytes.len) (ordered : lower ≤ upper)
    (beyond : bytes.len < upper) :
    bytes.view (.included lower) (.excluded upper) = .ok none := by
  have placed := BytesReader.placed_reader bytes
  have length := bytes.length_toVec
  rcases BytesReader.skip_placed placed lower
    (by rw [BytesReader.rest_reader]; omega) with
    ⟨after, passed, skipped, walked⟩
  have kept := walked.placed placed
  have read := BytesReader.readChunks_placed kept.1 (upper - lower)
  rw [kept.2, BytesReader.rest_reader, List.length_drop,
    if_neg (by omega)] at read
  simp only [view, Bound.startDelta, Bound.endDelta, ok_bind, skipped,
    checkedSub_of_le ordered, read]
  rfl

/-- A range that runs backwards from inside of the bytes overflows. -/
theorem view_backwards {bytes : Bytes} {lower upper : Nat}
    (inside : lower ≤ bytes.len) (backwards : upper < lower) :
    bytes.view (.included lower) (.excluded upper) =
      .error .arithmetic := by
  have placed := BytesReader.placed_reader bytes
  have length := bytes.length_toVec
  rcases BytesReader.skip_placed placed lower
    (by rw [BytesReader.rest_reader]; omega) with
    ⟨after, passed, skipped, walked⟩
  have overflow : checkedSub upper lower = .error .arithmetic :=
    if_neg (Nat.not_le.2 backwards)
  simp only [view, Bound.startDelta, Bound.endDelta, ok_bind, skipped,
    overflow, error_bind]

/-- A view of counted bounds is the slice unless it runs backwards. -/
theorem viewed_counted_iff (bytes : Bytes) (lower upper : Nat) :
    bytes.viewed (.included lower) (.excluded upper) =
        .ok (sliced bytes.toVec (.included lower) (.excluded upper)) ↔
      lower ≤ upper ∨ bytes.len < lower := by
  unfold viewed sliced
  simp only [Bound.startsAt, Bound.stopsAt, length_toVec]
  rcases Nat.lt_or_ge bytes.len lower with past | inside
  · rw [view_past past, if_neg (by omega)]
    exact iff_of_true rfl (Or.inr past)
  · rcases Nat.lt_or_ge upper lower with backwards | ordered
    · rw [view_backwards inside backwards]
      constructor
      · intro impossible
        cases impossible
      · rintro (ordered | past)
        · omega
        · omega
    · rw [iff_true_right (Or.inl ordered)]
      rcases Nat.lt_or_ge bytes.len upper with beyond | bounded
      · rw [view_beyond inside ordered beyond, if_neg (by omega)]
        rfl
      · rcases bytes.view_of_le (.included lower) (.excluded upper) rfl rfl
          ordered bounded with ⟨result, found, slice, _⟩
        rw [found, if_pos ⟨ordered, bounded⟩, ← slice]
        rfl

/-- A view is the slice exactly when its arithmetic does not overflow. -/
theorem viewed_iff (bytes : Bytes) (lower upper : Bound) :
    bytes.viewed lower upper = .ok (sliced bytes.toVec lower upper) ↔
      bytes.Clear lower upper := by
  by_cases start : lower.StartFits
  · by_cases stop : upper.StopFits
    · have counted : sliced bytes.toVec lower upper =
          sliced bytes.toVec (.included lower.startsAt)
            (.excluded (upper.stopsAt bytes.len)) := by
        rw [← length_toVec]
        rfl
      rw [viewed, view_eq start stop, counted]
      refine (bytes.viewed_counted_iff _ _).trans ?_
      constructor
      · exact fun ordered => ⟨start, stop, ordered⟩
      · exact fun clear => clear.ordered
    · constructor
      · intro same
        rw [viewed, view, Bound.startDelta_eq start,
          Bound.endDelta_overflow stop] at same
        cases same
      · exact fun clear => absurd clear.stop stop
  · constructor
    · intro same
      rw [viewed, view, Bound.startDelta_overflow start] at same
      cases same
    · exact fun clear => absurd clear.start start

end Bytes

/-! ## Both views -/

/--
A view of a byte string, a view of a chunk, and a view of that chunk alone in
a byte string are the slices of their contents.
-/
structure Slices (bytes : Bytes) (chunk : Chunk) (lower upper : Bound) :
    Prop where
  bytes_eq : bytes.viewed lower upper =
    .ok (sliced bytes.toVec lower upper)
  chunk_eq : chunk.viewed lower upper =
    .ok (sliced chunk.asSlice lower upper)
  agree : (Bytes.single chunk).viewed lower upper =
    chunk.viewed lower upper

/-- Views are slices exactly when none of their arithmetic overflows. -/
theorem slices_iff (bytes : Bytes) (chunk : Chunk) (lower upper : Bound) :
    Slices bytes chunk lower upper ↔
      bytes.Clear lower upper ∧ chunk.Clear lower upper ∧
        (Bytes.single chunk).Clear lower upper := by
  have alone := (Bytes.single chunk).viewed_iff lower upper
  rw [Bytes.toVec_single] at alone
  constructor
  · rintro ⟨whole, part, agree⟩
    exact ⟨(bytes.viewed_iff lower upper).1 whole,
      (chunk.viewed_iff lower upper).1 part, alone.1 (agree.trans part)⟩
  · rintro ⟨whole, part, single⟩
    have slice := (chunk.viewed_iff lower upper).2 part
    exact ⟨(bytes.viewed_iff lower upper).2 whole, slice,
      (alone.2 single).trans slice.symm⟩

/-- A range that runs backwards overflows in a byte string. -/
theorem backwards_not_sliced :
    ¬ Slices (.single (.ofBuf [1, 2, 3])) (.ofBuf [1, 2, 3])
      (.included 2) (.excluded 1) := by
  rintro ⟨whole, _, _⟩
  cases whole

end Thubo
