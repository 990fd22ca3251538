import Thubo.Lib.Runs
import Thubo.Pipeline.Pool
import Thubo.Pipeline.RoundTrip

/-!
# The read task and its reader

The read task reads two length bytes, skips an empty batch, else reads that
many bytes into a fresh buffer and pushes them.  The reader is free: a read
may return any part of what is asked for, fail, reach the end of the stream,
or stay pending until the read timer expires or the token is cancelled.

However the bytes arrive, the contents pushed are those that the length bytes
cut out of the bytes read, and what leaves the loop is a read that gives no
bytes or a fatal result.
-/

namespace Thubo

/-! ## Cutting a stream at a boundary -/

namespace Rx

/-- Bytes that are whole batches and keep-alives, with the contents. -/
inductive Frames : List UInt8 → List (List UInt8) → Prop where
  | nil : Frames [] []
  | keepAlive {low high : UInt8} {rest : List UInt8}
      {contents : List (List UInt8)} (empty : fromLeBytes low high = 0)
      (later : Frames rest contents) :
      Frames (low :: high :: rest) contents
  | batch {low high : UInt8} {content rest : List UInt8}
      {contents : List (List UInt8)}
      (length : fromLeBytes low high = content.length)
      (positive : 0 < content.length) (later : Frames rest contents) :
      Frames (low :: high :: (content ++ rest)) (content :: contents)

/-- Whole batches followed by more bytes. -/
theorem Frames.append {front back : List UInt8}
    {contents more : List (List UInt8)} (frames : Frames front contents)
    (later : Frames back more) : Frames (front ++ back) (contents ++ more) := by
  induction frames with
  | nil => exact later
  | keepAlive empty _ hypothesis => exact .keepAlive empty hypothesis
  | batch length positive _ hypothesis =>
      rw [List.cons_append, List.cons_append, List.append_assoc]
      exact .batch length positive hypothesis

/-- More rounds than bytes change nothing. -/
theorem cutLoop_enough {rounds : Nat} {bytes : List UInt8}
    (enough : bytes.length ≤ rounds) : cutLoop rounds bytes = cut bytes := by
  suffices general : ∀ (limit more : Nat) (bytes : List UInt8),
      bytes.length ≤ limit → bytes.length ≤ more →
        cutLoop limit bytes = cutLoop more bytes from
    general _ _ _ enough (Nat.le_refl _)
  intro limit
  induction limit with
  | zero =>
      intro more bytes within _
      rw [List.length_eq_zero_iff.1 (Nat.le_zero.1 within)]
      cases more <;> rfl
  | succ limit hypothesis =>
      intro more bytes within withinMore
      cases bytes with
      | nil => cases more <;> rfl
      | cons low bytes =>
          cases bytes with
          | nil => cases more <;> rfl
          | cons high rest =>
              cases more with
              | zero => cases withinMore
              | succ more =>
                  simp only [List.length_cons] at within withinMore
                  rw [cutLoop, cutLoop]
                  split
                  · exact hypothesis more rest (by omega) (by omega)
                  · split
                    · rfl
                    · congr 1
                      apply hypothesis more
                      · rw [List.length_drop]
                        omega
                      · rw [List.length_drop]
                        omega

/-- One round of the loop. -/
theorem cut_cons (low high : UInt8) (rest : List UInt8) :
    cut (low :: high :: rest) =
      if fromLeBytes low high = 0 then
        cut rest
      else if rest.length < fromLeBytes low high then
        []
      else
        rest.take (fromLeBytes low high) ::
          cut (rest.drop (fromLeBytes low high)) := by
  rw [cut, List.length_cons, cutLoop, cutLoop_enough (by simp),
    cutLoop_enough (by rw [List.length_drop, List.length_cons]; omega)]

/-- Nothing is cut before two length bytes have been read. -/
theorem cut_short {bytes : List UInt8} (short : bytes.length < 2) :
    cut bytes = [] := by
  rcases bytes with _ | ⟨low, _ | ⟨high, rest⟩⟩
  · rfl
  · rfl
  · simp only [List.length_cons] at short
    omega

/-- The contents of whole batches are cut first. -/
theorem Frames.cut_append {front : List UInt8}
    {contents : List (List UInt8)} (frames : Frames front contents)
    (back : List UInt8) : cut (front ++ back) = contents ++ cut back := by
  induction frames with
  | nil => rfl
  | keepAlive empty _ hypothesis =>
      rw [List.cons_append, List.cons_append, cut_cons, if_pos empty,
        hypothesis]
  | batch length positive _ hypothesis =>
      rw [List.cons_append, List.cons_append, cut_cons, length,
        if_neg (by omega), if_neg (by simp), List.append_assoc,
        List.take_left, List.drop_left, hypothesis, List.cons_append]

/-- Nothing is cut while a batch is not whole. -/
theorem cut_partial {low high : UInt8} {got : List UInt8}
    (unfinished : got.length < fromLeBytes low high) :
    cut (low :: high :: got) = [] := by
  rw [cut_cons, if_neg (by omega), if_pos unfinished]

/-- More bytes leave what has been cut alone. -/
theorem cut_extends (bytes more : List UInt8) :
    cut bytes <+: cut (bytes ++ more) := by
  suffices general : ∀ limit (bytes : List UInt8), bytes.length ≤ limit →
      cut bytes <+: cut (bytes ++ more) from
    general _ bytes (Nat.le_refl _)
  intro limit
  induction limit with
  | zero =>
      intro bytes within
      rw [List.length_eq_zero_iff.1 (Nat.le_zero.1 within)]
      exact List.nil_prefix
  | succ limit hypothesis =>
      intro bytes within
      rcases bytes with _ | ⟨low, _ | ⟨high, rest⟩⟩
      · exact List.nil_prefix
      · exact List.nil_prefix
      · simp only [List.length_cons] at within
        rw [List.cons_append, List.cons_append, cut_cons, cut_cons]
        split
        · exact hypothesis rest (by omega)
        · split
          · exact List.nil_prefix
          · rename_i enough
            have reaches : fromLeBytes low high ≤ rest.length := by omega
            rw [if_neg (by rw [List.length_append]; omega),
              List.take_append_of_le_length reaches,
              List.drop_append_of_le_length reaches,
              List.prefix_cons_inj]
            exact hypothesis _ (by rw [List.length_drop]; omega)

end Rx

/-! ## States and steps -/

namespace ReadTask

/-- Where the task is. -/
inductive Phase where
  /-- Reading the two length bytes. -/
  | header (got : List UInt8)
  /-- Reading a batch of a length. -/
  | body (len : Nat) (got : List UInt8)
  /-- The batch is being pushed. -/
  | pushing
  | done
deriving DecidableEq, Repr

/-- The statistics of the task. -/
structure Stats where
  batches : Nat
  bytes : Nat
  dropped : Nat
deriving DecidableEq, Repr

/-- The task with its history. -/
structure State where
  phase : Phase
  stats : Stats
  /-- The bytes read so far. -/
  consumed : List UInt8
  /-- The chunks that have been pushed. -/
  pushes : List Chunk
  /-- What the pushes that have ended have returned. -/
  results : List (Except Rx.SendError Bool)

def init : State :=
  ⟨.header [], ⟨0, 0, 0⟩, [], [], []⟩

/-- What the surroundings of the task do next. -/
inductive Action where
  /-- A read returns some bytes. -/
  | arrived (bytes : List UInt8)
  /-- A read reaches the end of the stream or fails. -/
  | ended
  /-- The read timer expires. -/
  | timedOut
  /-- The token is cancelled. -/
  | cancelled
  /-- The push returns. -/
  | returned (result : Except Rx.SendError Bool)

/-- What pads a buffer to a size that is a power of two. -/
def padding (got : List UInt8) : List UInt8 :=
  List.replicate (Tx.nextPowerOfTwo got.length - got.length) (UInt8.ofNat 0)

theorem buffer_start (got : List UInt8) : 0 ≤ got.length :=
  Nat.zero_le _

theorem buffer_stop (got : List UInt8) :
    got.length ≤ (got ++ padding got).length := by
  rw [List.length_append]
  exact Nat.le_add_right _ _

/-- The first `len` bytes of a buffer whose size is a power of two. -/
def buffer (got : List UInt8) : Chunk where
  buf := got ++ padding got
  start := 0
  stop := got.length
  start_le := buffer_start got
  stop_le := buffer_stop got

/-- The length bytes have been read. -/
def readHeader (state : State) (got : List UInt8) : State :=
  match got with
  | [low, high] =>
      let len := Rx.fromLeBytes low high
      { state with phase := if len = 0 then .header [] else .body len [] }
  | _ => { state with phase := .header got }

/-- Some or all of the batch has been read. -/
def readBody (state : State) (len : Nat) (got : List UInt8) : State :=
  if got.length = len then
    { state with
      phase := .pushing
      stats :=
        { state.stats with
          batches := state.stats.batches + 1
          bytes := state.stats.bytes + len }
      pushes := state.pushes ++ [buffer got] }
  else
    { state with phase := .body len got }

/-- A read of `read_exact`, which asks for what is missing. -/
def read (state : State) (bytes : List UInt8) : Option State :=
  let state := { state with consumed := state.consumed ++ bytes }
  match state.phase with
  | .header got =>
      if bytes ≠ [] ∧ (got ++ bytes).length ≤ 2 then
        some (readHeader state (got ++ bytes))
      else
        none
  | .body len got =>
      if bytes ≠ [] ∧ (got ++ bytes).length ≤ len then
        some (readBody state len (got ++ bytes))
      else
        none
  | .pushing | .done => none

/-- The loop is left while the task reads. -/
def leave (state : State) : Option State :=
  match state.phase with
  | .header _ | .body _ _ => some { state with phase := .done }
  | .pushing | .done => none

/-- The message was dropped. -/
def isDropped : Except Rx.SendError Bool → Bool
  | .ok sent => !sent
  | .error .invalidSeqNum | .error .invalidFragId | .error .capacityLimit
  | .error .timeout => true
  | .error .decodingFailed | .error .channelClosed
  | .error .internalError => false

/-- The loop is left after this result. -/
def isFatal : Except Rx.SendError Bool → Bool
  | .error .decodingFailed | .error .channelClosed
  | .error .internalError => true
  | _ => false

/-- The result of a push is handled. -/
def handle (state : State) (result : Except Rx.SendError Bool) : State :=
  { state with
    results := state.results ++ [result]
    stats :=
      { state.stats with
        dropped := state.stats.dropped + if isDropped result then 1 else 0 }
    phase := if isFatal result then .done else .header [] }

/-- One step; nothing when the action is not possible in the phase. -/
def step (state : State) : Action → Option State
  | .arrived bytes => read state bytes
  | .ended | .timedOut | .cancelled => leave state
  | .returned result =>
      match state.phase with
      | .pushing => some (handle state result)
      | _ => none

/-! ## What is pushed -/

/-- The contents of the chunks pushed. -/
def contents (state : State) : List (List UInt8) :=
  state.pushes.map Chunk.asSlice

@[simp]
theorem asSlice_buffer (got : List UInt8) : (buffer got).asSlice = got := by
  rw [Chunk.asSlice, buffer, List.take_left, List.drop_zero]

/-- What has been read since the last whole batch. -/
def Partly : Phase → List UInt8 → Prop
  | .header got, rest => rest = got ∧ got.length < 2
  | .body len got, rest =>
      ∃ low high, rest = low :: high :: got ∧
        Rx.fromLeBytes low high = len ∧ got.length < len
  | .pushing, rest => rest = []
  | .done, rest => Rx.cut rest = []

/-- The statistics and the results belong to the pushes. -/
structure Counts (state : State) : Prop where
  batches : state.stats.batches = state.pushes.length
  bytes : state.stats.bytes = ((contents state).map List.length).sum
  dropped : state.stats.dropped = state.results.countP isDropped
  results : state.pushes.length =
    state.results.length + if state.phase = .pushing then 1 else 0
  /-- A fatal result has ended the loop. -/
  going : ∀ result ∈ state.results, isFatal result = true →
    state.phase = .done
  buffers : ∀ chunk ∈ state.pushes, chunk.start = 0 ∧
    0 < chunk.len ∧ chunk.buf.length = Tx.nextPowerOfTwo chunk.len

/-- The bytes read are the batches pushed and a part of the next one. -/
structure Reading (state : State) : Prop where
  split : ∃ front rest, state.consumed = front ++ rest ∧
    Rx.Frames front (contents state) ∧ Partly state.phase rest
  counts : Counts state

theorem reading_init : Reading init where
  split := ⟨[], [], rfl, .nil, rfl, by decide⟩
  counts := ⟨rfl, rfl, rfl, rfl, by simp [init], by simp [init]⟩

variable {state after : State} {action : Action}

theorem nextPowerOfTwo_ge (len : Nat) : len ≤ Tx.nextPowerOfTwo len :=
  Nat.le_pow_clog (by decide) len

theorem length_buffer (got : List UInt8) :
    (buffer got).buf.length = Tx.nextPowerOfTwo got.length := by
  have enough := nextPowerOfTwo_ge got.length
  rw [buffer, List.length_append, padding, List.length_replicate]
  omega

/-- Nothing is cut from a batch that is not whole. -/
theorem Partly.cut {phase : Phase} {rest : List UInt8}
    (partly : Partly phase rest) : Rx.cut rest = [] := by
  cases phase with
  | header got => rw [partly.1, Rx.cut_short partly.2]
  | body len got =>
      rcases partly with ⟨low, high, rfl, same, short⟩
      exact Rx.cut_partial (same ▸ short)
  | pushing => rw [partly]; rfl
  | done => exact partly

/-- One more header is read. -/
theorem readHeader_reading {front got bytes : List UInt8}
    (consumed : state.consumed = front ++ got)
    (frames : Rx.Frames front (contents state)) (counts : Counts state)
    (phase : state.phase = .header got)
    (asked : (got ++ bytes).length ≤ 2) :
    Reading (readHeader { state with consumed := state.consumed ++ bytes }
      (got ++ bytes)) := by
  have quiet : ∀ later : Phase, later ≠ .pushing → later ≠ .done →
      Counts { state with
        consumed := state.consumed ++ bytes, phase := later } := by
    intro later notPushing notDone
    refine ⟨counts.batches, counts.bytes, counts.dropped, ?_,
      fun result member fatal => ?_, counts.buffers⟩
    · have results := counts.results
      rw [phase, if_neg (by simp)] at results
      rw [results, if_neg notPushing]
    · cases phase.symm.trans (counts.going result member fatal)
  have read : state.consumed ++ bytes = front ++ (got ++ bytes) := by
    rw [consumed, List.append_assoc]
  unfold readHeader
  split
  · rename_i low high whole
    rw [whole] at read
    by_cases empty : Rx.fromLeBytes low high = 0
    · simp only [empty, if_true]
      refine ⟨⟨front ++ [low, high], [], ?_, ?_, rfl, by decide⟩,
        quiet _ (by simp) (by simp)⟩
      · rw [List.append_nil]
        exact read
      · have later := frames.append (.keepAlive empty .nil)
        rwa [List.append_nil] at later
    · simp only [empty, if_false]
      exact ⟨⟨front, [low, high], read, frames, low, high, rfl, rfl,
        Nat.pos_of_ne_zero empty⟩, quiet _ (by simp) (by simp)⟩
  · rename_i notWhole
    refine ⟨⟨front, got ++ bytes, read, frames, rfl, ?_⟩,
      quiet _ (by simp) (by simp)⟩
    rcases shape : got ++ bytes with _ | ⟨low, _ | ⟨high, _ | ⟨_, _⟩⟩⟩
    · decide
    · exact Nat.lt_succ_self 1
    · exact (notWhole low high shape).elim
    · rw [shape] at asked
      simp only [List.length_cons] at asked
      omega

/-- One more part of a batch is read. -/
theorem readBody_reading {front got bytes : List UInt8} {len : Nat}
    {low high : UInt8}
    (consumed : state.consumed = front ++ low :: high :: got)
    (frames : Rx.Frames front (contents state)) (counts : Counts state)
    (phase : state.phase = .body len got)
    (same : Rx.fromLeBytes low high = len) (short : got.length < len)
    (asked : (got ++ bytes).length ≤ len) :
    Reading (readBody { state with consumed := state.consumed ++ bytes }
      len (got ++ bytes)) := by
  have notDone : ∀ result ∈ state.results, isFatal result = true → False := by
    intro result member fatal
    cases phase.symm.trans (counts.going result member fatal)
  have results := counts.results
  rw [phase, if_neg (by simp)] at results
  have read : state.consumed ++ bytes =
      front ++ low :: high :: (got ++ bytes) := by
    rw [consumed, List.append_assoc]
    rfl
  unfold readBody
  split
  · rename_i whole
    have positive : 0 < (got ++ bytes).length := by omega
    refine ⟨⟨front ++ (low :: high :: (got ++ bytes)), [], ?_, ?_, rfl⟩,
      ⟨?_, ?_, counts.dropped, ?_, fun result member fatal =>
        (notDone result member fatal).elim, ?_⟩⟩
    · rw [List.append_nil]
      exact read
    · have later := frames.append
        (.batch (same.trans whole.symm) positive .nil)
      rw [List.append_nil] at later
      simpa [contents] using later
    · simp [counts.batches]
    · simp [contents, counts.bytes, whole]
    · simp [results]
    · intro chunk member
      rcases List.mem_append.1 member with old | new
      · exact counts.buffers chunk old
      · rw [List.mem_singleton.1 new]
        have len_eq : (buffer (got ++ bytes)).len =
            (got ++ bytes).length := Nat.sub_zero _
        refine ⟨rfl, ?_, ?_⟩
        · rwa [len_eq]
        · rw [len_eq, length_buffer]
  · rename_i unfinished
    refine ⟨⟨front, low :: high :: (got ++ bytes), read, frames, low, high,
      rfl, same, by omega⟩, counts.batches, counts.bytes, counts.dropped,
      ?_, fun result member fatal => (notDone result member fatal).elim,
      counts.buffers⟩
    rw [results, if_neg (by simp)]

/-- The result of a push is handled. -/
theorem handle_reading (reading : Reading state)
    (phase : state.phase = .pushing) (result : Except Rx.SendError Bool) :
    Reading (handle state result) := by
  rcases reading with ⟨⟨front, rest, consumed, frames, partly⟩, counts⟩
  rw [phase] at partly
  have results := counts.results
  rw [phase, if_pos rfl] at results
  constructor
  · refine ⟨front, rest, consumed, frames, ?_⟩
    rw [partly]
    simp only [handle]
    split
    · rfl
    · exact ⟨rfl, by decide⟩
  · refine ⟨counts.batches, counts.bytes, ?_, ?_, ?_, counts.buffers⟩
    · simp only [handle, List.countP_append, List.countP_singleton,
        counts.dropped]
    · simp only [handle, List.length_append, List.length_singleton]
      rw [results]
      split <;> rw [if_neg (by simp)]
    · intro other member fatal
      rcases List.mem_append.1 member with old | new
      · cases phase.symm.trans (counts.going other old fatal)
      · rw [List.mem_singleton.1 new] at fatal
        simp only [handle, fatal, if_true]

/-- The loop is left while the task reads. -/
theorem leave_reading (reading : Reading state)
    (left : leave state = some after) : Reading after := by
  rcases reading with ⟨⟨front, rest, consumed, frames, partly⟩, counts⟩
  have gone : ∀ later : State, later = { state with phase := .done } →
      state.phase ≠ .pushing → Reading later := by
    rintro later rfl reads
    refine ⟨⟨front, rest, consumed, frames, partly.cut⟩, counts.batches,
      counts.bytes, counts.dropped, ?_, fun _ _ _ => rfl, counts.buffers⟩
    have results := counts.results
    rwa [if_neg reads] at results
  unfold leave at left
  split at left
  · rename_i phase
    cases left
    exact gone _ rfl (by rw [phase]; simp)
  · rename_i phase
    cases left
    exact gone _ rfl (by rw [phase]; simp)
  · cases left
  · cases left

/-- Every step goes on reading. -/
theorem step_reading (reading : Reading state)
    (taken : step state action = some after) : Reading after := by
  cases action with
  | arrived bytes =>
      rcases reading with ⟨⟨front, rest, consumed, frames, partly⟩, counts⟩
      simp only [step, read] at taken
      cases phase : state.phase with
      | header got =>
          rw [phase] at partly taken
          rcases partly with ⟨rfl, short⟩
          simp only at taken
          split at taken
          · rename_i asked
            cases taken
            exact readHeader_reading consumed frames counts phase asked.2
          · cases taken
      | body len got =>
          rw [phase] at partly taken
          rcases partly with ⟨low, high, rfl, same, short⟩
          simp only at taken
          split at taken
          · rename_i asked
            cases taken
            exact readBody_reading consumed frames counts phase same short
              asked.2
          · cases taken
      | pushing =>
          rw [phase] at taken
          cases taken
      | done =>
          rw [phase] at taken
          cases taken
  | ended => exact leave_reading reading taken
  | timedOut => exact leave_reading reading taken
  | cancelled => exact leave_reading reading taken
  | returned result =>
      simp only [step] at taken
      split at taken
      · rename_i phase
        cases taken
        exact handle_reading reading phase result
      · cases taken

theorem reading_of_run {actions : List Action}
    (ran : Runs.run step init actions = some state) : Reading state :=
  Runs.invariant_of_step
    (fun _ _ _ reading taken => step_reading reading taken) reading_init ran

/-- The contents pushed are those cut out of the bytes read. -/
theorem Reading.cut (reading : Reading state) :
    contents state = Rx.cut state.consumed := by
  rcases reading.split with ⟨front, rest, consumed, frames, partly⟩
  rw [consumed, frames.cut_append, partly.cut, List.append_nil]

/-! ## What ends the loop -/

/-- The loop is left with this action. -/
def Action.Leaves : Action → Prop
  | .arrived _ => False
  | .ended | .timedOut | .cancelled => True
  | .returned result => isFatal result = true

/-- What a push that returns has returned. -/
def Action.result : Action → Option (Except Rx.SendError Bool)
  | .returned result => some result
  | .arrived _ | .ended | .timedOut | .cancelled => none

/-- A step is possible before the loop is left and says if it leaves it. -/
structure Left (state : State) (action : Action) (after : State) : Prop where
  before : state.phase ≠ .done
  left : after.phase = .done ↔ action.Leaves
  results : after.results = state.results ++ action.result.toList

/-- A header that is read leaves the loop going. -/
theorem readHeader_going (state : State) (got : List UInt8) :
    (readHeader state got).phase ≠ .done ∧
      (readHeader state got).results = state.results := by
  unfold readHeader
  split
  · refine ⟨?_, rfl⟩
    dsimp only
    split <;> simp
  · exact ⟨by simp, rfl⟩

/-- A batch that is read leaves the loop going. -/
theorem readBody_going (state : State) (len : Nat) (got : List UInt8) :
    (readBody state len got).phase ≠ .done ∧
      (readBody state len got).results = state.results := by
  unfold readBody
  split
  · exact ⟨by simp, rfl⟩
  · exact ⟨by simp, rfl⟩

/-- A read that returns bytes leaves the loop going. -/
theorem read_left {bytes : List UInt8}
    (taken : read state bytes = some after) :
    Left state (.arrived bytes) after := by
  have goes : ∀ later : State, state.phase ≠ .done →
      later.phase ≠ .done ∧ later.results = state.results →
        Left state (.arrived bytes) later := by
    intro later before kept
    refine ⟨before, iff_of_false kept.1 id, ?_⟩
    rw [kept.2, Action.result, Option.toList_none, List.append_nil]
  unfold read at taken
  cases phase : state.phase with
  | header got =>
      simp only [phase] at taken
      split at taken
      · cases taken
        exact goes _ (by rw [phase]; simp) (readHeader_going _ _)
      · cases taken
  | body len got =>
      simp only [phase] at taken
      split at taken
      · cases taken
        exact goes _ (by rw [phase]; simp) (readBody_going _ _ _)
      · cases taken
  | pushing =>
      simp only [phase] at taken
      cases taken
  | done =>
      simp only [phase] at taken
      cases taken

/-- A read that fails, or that nobody waits for, leaves the loop. -/
theorem leave_left (leaves : action.Leaves) (silent : action.result = none)
    (taken : leave state = some after) : Left state action after := by
  have goes : state.phase ≠ .done →
      Left state action { state with phase := .done } := by
    intro before
    refine ⟨before, iff_of_true rfl leaves, ?_⟩
    rw [silent, Option.toList_none, List.append_nil]
  unfold leave at taken
  split at taken
  · rename_i phase
    cases taken
    exact goes (by rw [phase]; simp)
  · rename_i phase
    cases taken
    exact goes (by rw [phase]; simp)
  · cases taken
  · cases taken

/-- A result leaves the loop when it is fatal, and only then. -/
theorem handle_left (phase : state.phase = .pushing)
    (result : Except Rx.SendError Bool) :
    Left state (.returned result) (handle state result) := by
  refine ⟨by rw [phase]; simp, ?_, rfl⟩
  simp only [handle, Action.Leaves]
  split
  · rename_i fatal
    exact iff_of_true rfl fatal
  · rename_i harmless
    exact iff_of_false (by simp) harmless

theorem step_left (taken : step state action = some after) :
    Left state action after := by
  cases action with
  | arrived bytes => exact read_left taken
  | ended => exact leave_left trivial rfl taken
  | timedOut => exact leave_left trivial rfl taken
  | cancelled => exact leave_left trivial rfl taken
  | returned result =>
      simp only [step] at taken
      split at taken
      · rename_i phase
        cases taken
        exact handle_left phase result
      · cases taken

/-- The loop is left at an action of the run that leaves it. -/
theorem left_of_run {start : State} {actions : List Action}
    (ran : Runs.run step start actions = some state) :
    (state.phase = .done ↔
      start.phase = .done ∨ ∃ action ∈ actions, action.Leaves) ∧
    state.results = start.results ++ actions.filterMap Action.result := by
  induction actions generalizing start with
  | nil =>
      cases ran
      simp
  | cons action actions hypothesis =>
      rcases Runs.run_cons_cases ran with ⟨middle, first, later⟩
      rcases step_left first with ⟨before, left, results⟩
      rcases hypothesis later with ⟨ends, told⟩
      constructor
      · rw [ends, left, List.exists_mem_cons_iff, or_iff_right before]
      · rw [told, results, List.append_assoc, List.filterMap_cons]
        cases action.result with
        | none => rfl
        | some result => rfl

/--
In every run, however the bytes arrive, the task pushes what the length bytes
cut out of the bytes read, each batch at the start of a buffer whose size is
a power of two, and the statistics count the batches, their bytes and those
that were dropped.  The loop is left at a read that ends, times out or is
cancelled and at a fatal result, and at nothing else.
-/
theorem cuts_of_run {actions : List Action}
    (ran : Runs.run step init actions = some state) :
    contents state = Rx.cut state.consumed ∧ Counts state ∧
      (state.phase = .done ↔ ∃ action ∈ actions, action.Leaves) ∧
      state.results = actions.filterMap Action.result := by
  rcases left_of_run ran with ⟨left, results⟩
  refine ⟨(reading_of_run ran).cut, (reading_of_run ran).counts, ?_, ?_⟩
  · rw [left, or_iff_right (by simp [init])]
  · rw [results, init, List.nil_append]

/-- A keep-alive and a batch of three bytes, in pieces; it is dropped. -/
def pieceRun : List Action :=
  [.arrived [0], .arrived [0], .arrived [3, 0], .arrived [7],
    .arrived [8, 9], .returned (.ok false), .arrived [1], .timedOut]

/-- The batch is pushed in a buffer of four bytes and counted as dropped. -/
theorem cuts_of_run_pieces :
    ∃ state, (contents state = Rx.cut state.consumed ∧ Counts state ∧
      (state.phase = .done ↔ ∃ action ∈ pieceRun, action.Leaves) ∧
      state.results = pieceRun.filterMap Action.result) ∧
      state.consumed = [0, 0, 3, 0, 7, 8, 9, 1] ∧
      contents state = [[7, 8, 9]] ∧ state.stats = ⟨1, 3, 1⟩ := by
  have ran : Runs.run step init pieceRun =
      some ⟨.done, ⟨1, 3, 1⟩, [0, 0, 3, 0, 7, 8, 9, 1],
        [buffer [7, 8, 9]], [.ok false]⟩ := by
    rfl
  exact ⟨_, cuts_of_run ran, rfl, rfl, rfl⟩

end ReadTask
end Thubo
