import Mathlib.Data.List.Induction
import Thubo.Lib.Runs
import Thubo.Pipeline.Leftover

/-!
# Whether a pending batch grows

The length of a pending batch and the time of its first write share one word.
A push stores the time and, after each message, ors the length into the word;
the puller loads the word and compares the length with that of its previous
load to see whether the batch still grows.

The word is not cleared between two messages, so its lower half is the
disjunction of all lengths since the first write.  The queue of a priority
keeps that half alone; here it is derived from the word.
-/

namespace Thubo
namespace Tx

/-! ## The word -/

/-- The length of a pending batch and the time of its first write. -/
structure AtomicBackoff where
  word : BitVec 64
deriving DecidableEq, Repr

namespace AtomicBackoff

/-- The bits of a batch size. -/
def BITS : Nat := 16

def new : AtomicBackoff :=
  ⟨0⟩

def clear (_ : AtomicBackoff) : AtomicBackoff :=
  ⟨0⟩

/-- Store the time of the first write in microseconds. -/
def start (_ : AtomicBackoff) (firstWrite : Nat) : AtomicBackoff :=
  ⟨BitVec.ofNat 64 firstWrite <<< BITS⟩

/-- `fetch_or` of the length. -/
def update (backoff : AtomicBackoff) (bytes : Nat) : AtomicBackoff :=
  ⟨backoff.word ||| BitVec.ofNat 64 bytes⟩

/-- The lower half and what is above it. -/
def load (backoff : AtomicBackoff) : Nat × Nat :=
  ((backoff.word.setWidth BITS).toNat, (backoff.word >>> BITS).toNat)

theorem bytes_start (backoff : AtomicBackoff) (firstWrite : Nat) :
    (backoff.start firstWrite).load.1 = 0 := by
  simp only [load, start, BITS, BitVec.toNat_setWidth,
    BitVec.toNat_shiftLeft, Nat.shiftLeft_eq]
  omega

theorem bytes_update (backoff : AtomicBackoff) {bytes : Nat}
    (bounded : bytes < 2 ^ BITS) :
    (backoff.update bytes).load.1 = backoff.load.1 ||| bytes := by
  unfold BITS at bounded
  have word : (BitVec.ofNat 64 bytes).toNat = bytes := by
    rw [BitVec.toNat_ofNat]
    omega
  simp only [load, update, BITS, BitVec.toNat_setWidth, BitVec.toNat_or,
    word, Nat.or_mod_two_pow, Nat.mod_eq_of_lt bounded]

/-- The time of the first write survives the updates. -/
theorem firstWrite_update (backoff : AtomicBackoff) {bytes : Nat}
    (bounded : bytes < 2 ^ BITS) :
    (backoff.update bytes).load.2 = backoff.load.2 := by
  unfold BITS at bounded
  have word : (BitVec.ofNat 64 bytes).toNat = bytes := by
    rw [BitVec.toNat_ofNat]
    omega
  have gone : bytes >>> 16 = 0 := by
    rw [Nat.shiftRight_eq_div_pow]
    omega
  simp only [load, update, BITS, BitVec.toNat_ushiftRight, BitVec.toNat_or,
    word, Nat.shiftRight_or_distrib, gone, Nat.or_zero]

end AtomicBackoff

/-! ## Disjunctions of lengths -/

/-- What the updates with some lengths leave in the lower half. -/
def joined (lengths : List Nat) : Nat :=
  lengths.foldl (fun bytes length => bytes ||| length) 0

@[simp]
theorem joined_nil : joined [] = 0 :=
  rfl

@[simp]
theorem joined_concat (lengths : List Nat) (length : Nat) :
    joined (lengths ++ [length]) = joined lengths ||| length := by
  rw [joined, List.foldl_append]
  rfl

/-- A length whose bits are all in `whole` adds nothing to it. -/
def Within (whole length : Nat) : Prop :=
  length ||| whole = whole

instance (whole length : Nat) : Decidable (Within whole length) :=
  inferInstanceAs (Decidable (_ = _))

/-- A disjunction adds nothing exactly when no length does. -/
theorem within_joined_iff {whole : Nat} (lengths : List Nat) :
    Within whole (joined lengths) ↔
      ∀ length ∈ lengths, Within whole length := by
  induction lengths using List.reverseRecOn with
  | nil => simp [Within]
  | append_singleton lengths length hypothesis =>
      have split : Within whole (joined lengths ||| length) ↔
          Within whole (joined lengths) ∧ Within whole length := by
        unfold Within
        constructor
        · intro within
          constructor
          · rw [← within, ← Nat.or_assoc, ← Nat.or_assoc, Nat.or_self]
          · rw [← within, ← Nat.or_assoc, Nat.or_comm (joined lengths),
              ← Nat.or_assoc, Nat.or_self]
        · rintro ⟨front, last⟩
          rw [Nat.or_assoc, last, front]
      rw [joined_concat, split, hypothesis]
      simp [or_imp, forall_and]

/-- The disjunction is the last length exactly when that has all the bits. -/
theorem joined_eq_last_iff (lengths : List Nat) :
    joined lengths = lengths.getLastD 0 ↔
      ∀ length ∈ lengths, Within (lengths.getLastD 0) length := by
  rw [← within_joined_iff]
  cases lengths using List.reverseRecOn with
  | nil => simp [Within]
  | append_singleton lengths length =>
      simp only [joined_concat, List.getLastD_concat, Within]
      rw [Nat.or_assoc, Nat.or_self]

/-- Of growing lengths, those up to one are told by that one. -/
theorem eq_of_last_eq {front lengths : List Nat}
    (growing : (0 :: lengths).Pairwise (fun a b => a < b))
    (part : front <+: lengths)
    (same : front.getLastD 0 = lengths.getLastD 0) : front = lengths := by
  rcases part with ⟨rest, rfl⟩
  cases rest using List.reverseRecOn with
  | nil => rw [List.append_nil]
  | append_singleton rest length =>
      exfalso
      rw [← List.append_assoc, List.getLastD_concat] at same
      rw [← List.append_assoc, ← List.cons_append,
        List.pairwise_append] at growing
      have member : front.getLastD 0 ∈ 0 :: (front ++ rest) := by
        cases front using List.reverseRecOn with
        | nil => simp
        | append_singleton front last => simp
      have less := growing.2.2 _ member length (List.mem_singleton.2 rfl)
      omega

/-! ## Pushes and loads -/

namespace Backoff

/-- A load of the puller. -/
structure Reading where
  /-- The bytes of the word. -/
  bytes : Nat
  /-- `booked_len`: the bytes of the load it is compared with. -/
  old : Nat
  /-- The lengths of the batch after each message so far. -/
  lengths : List Nat
  /-- How many messages there were at the load it is compared with. -/
  seen : Nat
deriving DecidableEq, Repr

/-- What the puller makes of a load. -/
inductive Verdict where
  /-- The batch has been moved out. -/
  | moved
  /-- The batch does not grow any more. -/
  | still
  | growing
deriving DecidableEq, Repr

def Reading.verdict (reading : Reading) : Verdict :=
  match compare reading.bytes reading.old with
  | .lt => .moved
  | .eq => .still
  | .gt => .growing

/-- A batch that is booked for a push and inspected by the puller. -/
structure Pending where
  backoff : AtomicBackoff
  batch : WriteBatch
  /-- The last message is written, and the backoff not yet updated. -/
  written : Bool
  /-- The lengths of the batch at the updates. -/
  lengths : List Nat
  /-- `booked_len`, and how many updates it accounts for. -/
  booked : Nat
  seen : Nat
  readings : List Reading

inductive Action where
  /-- A push writes its message to the batch. -/
  | write (msg : Bytes)
  /-- The push updates the backoff. -/
  | update
  /-- The puller loads the backoff. -/
  | load
  /-- The puller starts over. -/
  | reset

/-- The length of the message fits a `u64`. -/
def Action.Sized : Action → Prop
  | .write msg => msg.len < 2 ^ 64
  | _ => True

namespace Pending

/-- A batch has been acquired and the time of the first write stored. -/
def start (batch : WriteBatch) (firstWrite : Nat) : Pending where
  backoff := AtomicBackoff.new.start firstWrite
  batch := batch
  written := false
  lengths := []
  booked := 0
  seen := 0
  readings := []

/-- The first message opens a frame and the others are appended to it. -/
def write (header : MessageHeader) (batch : WriteBatch) (msg : Bytes) :
    Except Fault (Bool × WriteBatch) :=
  if batch.isEmpty then
    batch.startFrame header msg
  else
    batch.append msg

/-- Load the backoff and note the bytes. -/
def load (state : Pending) : Pending :=
  let bytes := state.backoff.load.1
  { state with
    booked := bytes
    seen := state.lengths.length
    readings := state.readings ++
      [⟨bytes, state.booked, state.lengths, state.seen⟩] }

/--
One step.  A push holds the lock from its message to its update, and the
batch stays booked as long as the messages fit.
-/
def step (header : MessageHeader) (state : Pending) :
    Action → Option Pending
  | .write msg =>
      if state.written then
        none
      else
        match write header state.batch msg with
        | .ok (true, batch) =>
            some { state with batch := batch, written := true }
        | _ => none
  | .update =>
      if state.written then
        some
          { state with
            backoff := state.backoff.update state.batch.len
            written := false
            lengths := state.lengths ++ [state.batch.len] }
      else
        none
  | .load => some state.load
  | .reset => some { state with booked := 0, seen := 0 }

end Pending

/-! ## What the puller can trust -/

/--
The bytes of a load are the length after the last update, and only a batch
that has not grown is taken for one that does not grow.
-/
structure Truthful (reading : Reading) : Prop where
  bytes_eq : reading.bytes = reading.lengths.getLastD 0
  still : reading.verdict = .still →
    reading.lengths.length = reading.seen

/-- Two loads return the same bytes only if no message came between. -/
def Telling (earlier later : Reading) : Prop :=
  earlier.bytes = later.bytes → earlier.lengths = later.lengths

/-- All loads are truthful and tell the lengths apart. -/
structure Detects (readings : List Reading) : Prop where
  truthful : ∀ reading ∈ readings, Truthful reading
  telling : readings.Pairwise Telling

/-- The length of the batch has all the bits of its earlier lengths. -/
def Covering (reading : Reading) : Prop :=
  ∀ length ∈ reading.lengths, Within (reading.lengths.getLastD 0) length

/-! ## What every run keeps -/

/-- The load that `booked_len` comes from, if it is not a reset one. -/
def Noted (readings : List Reading) (old seen : Nat)
    (lengths : List Nat) : Prop :=
  (old = 0 ∧ seen = 0) ∨
    ∃ reading ∈ readings, reading.bytes = old ∧
      reading.lengths.length = seen ∧ reading.lengths <+: lengths

theorem Noted.mono {readings more : List Reading} {old seen : Nat}
    {lengths longer : List Nat} (noted : Noted readings old seen lengths)
    (kept : readings ⊆ more) (part : lengths <+: longer) :
    Noted more old seen longer := by
  rcases noted with zero | ⟨reading, member, bytes, length, earlier⟩
  · exact Or.inl zero
  · exact Or.inr ⟨reading, kept member, bytes, length, earlier.trans part⟩

/-- A load returns the disjunction of the lengths so far. -/
structure Records (readings : List Reading) (reading : Reading)
    (lengths : List Nat) : Prop where
  bytes_eq : reading.bytes = joined reading.lengths
  part : reading.lengths <+: lengths
  noted : Noted readings reading.old reading.seen reading.lengths

theorem Records.mono {readings more : List Reading} {reading : Reading}
    {lengths longer : List Nat} (records : Records readings reading lengths)
    (kept : readings ⊆ more) (part : lengths <+: longer) :
    Records more reading longer where
  bytes_eq := records.bytes_eq
  part := records.part.trans part
  noted := records.noted.mono kept List.prefix_rfl

/-- The batch has grown with every update. -/
structure Grown (batchSize : Nat) (state : Pending) : Prop where
  writable : state.batch.Writable batchSize
  bytes_eq : state.backoff.load.1 = joined state.lengths
  growing : (0 :: state.lengths).Pairwise (fun a b => a < b)
  le : ∀ length ∈ 0 :: state.lengths, length ≤ state.batch.len
  lt : state.written = true →
    ∀ length ∈ 0 :: state.lengths, length < state.batch.len

/-- The loads return the disjunctions of the lengths. -/
structure Logged (state : Pending) : Prop where
  records : ∀ reading ∈ state.readings,
    Records state.readings reading state.lengths
  ordered : state.readings.Pairwise
    (fun earlier later => earlier.lengths <+: later.lengths)
  noted : Noted state.readings state.booked state.seen state.lengths

/-! ## The steps -/

namespace Pending

variable {batchSize : Nat} {header : MessageHeader}
variable {state after : Pending}

/-- A message is written when none waits for its update. -/
theorem step_write {msg : Bytes}
    (stepped : step header state (.write msg) = some after) :
    ∃ next, write header state.batch msg = .ok (true, next) ∧
      after = { state with batch := next, written := true } := by
  simp only [step] at stepped
  split at stepped
  · cases stepped
  · split at stepped
    · rename_i next wrote
      cases stepped
      exact ⟨next, wrote, rfl⟩
    · cases stepped

/-- An update follows the message it is for. -/
theorem step_update (stepped : step header state .update = some after) :
    state.written = true ∧
      after =
        { state with
          backoff := state.backoff.update state.batch.len
          written := false
          lengths := state.lengths ++ [state.batch.len] } := by
  simp only [step] at stepped
  split at stepped
  · rename_i written
    cases stepped
    exact ⟨written, rfl⟩
  · cases stepped

/-- A message that is written makes the batch longer. -/
theorem write_longer {batch next : WriteBatch} {msg : Bytes}
    (small : batchSize ≤ 65535) (writable : batch.Writable batchSize)
    (sized : msg.len < 2 ^ 64)
    (wrote : write header batch msg = .ok (true, next)) :
    next.Writable batchSize ∧ batch.len < next.len := by
  have encodes : ∃ program bytes, Writes program bytes ∧ bytes ≠ [] ∧
      batch.encode program = .ok (true, next) := by
    have message := msg.write_writes sized
    have nonempty : msg.encoded ≠ [] :=
      List.append_ne_nil_of_left_ne_nil (vleBytes_ne_nil sized) _
    unfold write at wrote
    split at wrote
    · exact ⟨_, _, (Message.write_writes _).seq message,
        List.append_ne_nil_of_right_ne_nil _ nonempty, wrote⟩
    · exact ⟨_, _, message, nonempty, wrote⟩
  rcases encodes with ⟨program, bytes, writes, nonempty, encoded⟩
  have spec := WriteBatch.encode_spec writes batch
  by_cases room : bytes.length ≤ batch.frame.remaining
  · rw [spec.1 room] at encoded
    cases encoded
    have later := writable.put room
    have positive := List.length_pos_iff.2 nonempty
    have content := WriteBatch.content_put writable.headed writable.whole
      room
    refine ⟨later, ?_⟩
    rw [writable.len_eq small, later.len_eq small, content,
      List.length_append]
    omega
  · rw [spec.2 (Nat.lt_of_not_le room)] at encoded
    cases encoded

theorem start_grown {batch : WriteBatch} (firstWrite : Nat)
    (writable : batch.Writable batchSize) :
    Grown batchSize (start batch firstWrite) where
  writable := writable
  bytes_eq := AtomicBackoff.new.bytes_start firstWrite
  growing := List.pairwise_singleton _ 0
  le := by
    intro length member
    rw [List.mem_singleton.1 member]
    exact Nat.zero_le _
  lt := by
    intro written
    cases written

theorem start_logged (batch : WriteBatch) (firstWrite : Nat) :
    Logged (start batch firstWrite) where
  records := by
    intro reading member
    cases member
  ordered := List.Pairwise.nil
  noted := Or.inl ⟨rfl, rfl⟩

/-- The batch grows with every update. -/
theorem step_grown (small : batchSize ≤ 65535) {action : Action}
    (sized : action.Sized) (grown : Grown batchSize state)
    (stepped : step header state action = some after) :
    Grown batchSize after := by
  cases action with
  | write msg =>
      rcases step_write stepped with ⟨next, wrote, rfl⟩
      have longer := write_longer small grown.writable sized wrote
      have lt : ∀ length ∈ 0 :: state.lengths, length < next.len :=
        fun length member =>
          Nat.lt_of_le_of_lt (grown.le length member) longer.2
      exact ⟨longer.1, grown.bytes_eq, grown.growing,
        fun length member => Nat.le_of_lt (lt length member),
        fun _ => lt⟩
  | update =>
      rcases step_update stepped with ⟨written, rfl⟩
      have bounded : state.batch.len < 2 ^ AtomicBackoff.BITS :=
        Nat.mod_lt _ (by decide)
      constructor
      · exact grown.writable
      · rw [AtomicBackoff.bytes_update _ bounded, grown.bytes_eq,
          joined_concat]
      · rw [← List.cons_append, List.pairwise_append]
        refine ⟨grown.growing, List.pairwise_singleton _ _, ?_⟩
        intro length member last found
        rw [List.mem_singleton.1 found]
        exact grown.lt written length member
      · intro length member
        rw [← List.cons_append, List.mem_append,
          List.mem_singleton] at member
        rcases member with earlier | rfl
        · exact grown.le length earlier
        · exact Nat.le_refl _
      · intro unwritten
        cases unwritten
  | load =>
      cases stepped
      exact ⟨grown.writable, grown.bytes_eq, grown.growing, grown.le,
        grown.lt⟩
  | reset =>
      cases stepped
      exact ⟨grown.writable, grown.bytes_eq, grown.growing, grown.le,
        grown.lt⟩

/-- A load is recorded with the lengths so far. -/
theorem load_logged (grown : Grown batchSize state)
    (logged : Logged state) : Logged state.load := by
  have kept : state.readings ⊆ state.load.readings :=
    List.subset_append_left _ _
  constructor
  · intro reading member
    rcases List.mem_append.1 member with earlier | last
    · exact (logged.records reading earlier).mono kept List.prefix_rfl
    · rw [List.mem_singleton.1 last]
      exact ⟨grown.bytes_eq, List.prefix_rfl,
        logged.noted.mono kept List.prefix_rfl⟩
  · refine List.pairwise_append.2
      ⟨logged.ordered, List.pairwise_singleton _ _, ?_⟩
    intro earlier member later found
    rw [List.mem_singleton.1 found]
    exact (logged.records earlier member).part
  · exact Or.inr ⟨_, List.mem_append_right _ (List.mem_singleton.2 rfl),
      rfl, rfl, List.prefix_rfl⟩

theorem step_logged {action : Action} (grown : Grown batchSize state)
    (logged : Logged state)
    (stepped : step header state action = some after) :
    Logged after := by
  cases action with
  | write msg =>
      rcases step_write stepped with ⟨next, _, rfl⟩
      exact ⟨logged.records, logged.ordered, logged.noted⟩
  | update =>
      rcases step_update stepped with ⟨_, rfl⟩
      have part : state.lengths <+: state.lengths ++ [state.batch.len] :=
        List.prefix_append _ _
      exact
        ⟨fun reading member =>
          (logged.records reading member).mono (List.Subset.refl _) part,
          logged.ordered, logged.noted.mono (List.Subset.refl _) part⟩
  | load =>
      cases stepped
      exact load_logged grown logged
  | reset =>
      cases stepped
      exact ⟨logged.records, logged.ordered, Or.inl ⟨rfl, rfl⟩⟩

/-- Both invariants hold at the end of every run. -/
theorem run_keeps {batch : WriteBatch} (small : batchSize ≤ 65535)
    (writable : batch.Writable batchSize) {firstWrite : Nat}
    {actions : List Action} (sized : ∀ action ∈ actions, action.Sized)
    (ran : Runs.run (step header) (start batch firstWrite) actions =
      some state) : Grown batchSize state ∧ Logged state := by
  have initially : Grown batchSize (start batch firstWrite) ∧
      Logged (start batch firstWrite) :=
    ⟨start_grown firstWrite writable, start_logged batch firstWrite⟩
  exact Runs.invariant
    (fun state action after (kept : Grown batchSize state ∧ Logged state)
        good stepped =>
      ⟨step_grown small good.1 kept.1 stepped,
        step_logged kept.1 kept.2 stepped⟩)
    initially ((Runs.guarded_trivial _ actions).with_all sized) ran

end Pending

/-! ## When the puller can tell -/

/-- A load is the last length exactly when that has all the earlier bits. -/
theorem Records.bytes_eq_last_iff {readings : List Reading}
    {reading : Reading} {lengths : List Nat}
    (records : Records readings reading lengths) :
    reading.bytes = reading.lengths.getLastD 0 ↔ Covering reading := by
  rw [records.bytes_eq]
  exact joined_eq_last_iff reading.lengths

/-- Two loads of the same last length are of the same lengths. -/
theorem telling_of_last {earlier later : Reading}
    (growing : (0 :: later.lengths).Pairwise (fun a b => a < b))
    (last : later.bytes = later.lengths.getLastD 0)
    (earlierLast : earlier.bytes = earlier.lengths.getLastD 0)
    (order : earlier.lengths <+: later.lengths) :
    Telling earlier later := by
  intro same
  rw [earlierLast, last] at same
  exact eq_of_last_eq growing order same

/-- What a load is compared with stands for the lengths of that time. -/
theorem still_of_last {readings : List Reading} {lengths : List Nat}
    (last : ∀ reading ∈ readings,
      reading.bytes = reading.lengths.getLastD 0)
    {reading : Reading} (member : reading ∈ readings)
    (growing : (0 :: reading.lengths).Pairwise (fun a b => a < b))
    (records : Records readings reading lengths)
    (still : reading.verdict = .still) :
    reading.lengths.length = reading.seen := by
  have same : reading.bytes = reading.old := by
    unfold Reading.verdict at still
    split at still
    · cases still
    · exact Nat.compare_eq_eq.1 ‹_›
    · cases still
  rcases records.noted with
    ⟨old, seen⟩ | ⟨earlier, found, bytes, length, order⟩
  · have zero : ([] : List Nat).getLastD 0 =
        reading.lengths.getLastD 0 := by
      rw [← last reading member, same, old]
      rfl
    rw [← eq_of_last_eq growing List.nil_prefix zero, seen]
    rfl
  · rw [← length, telling_of_last growing (last reading member)
      (last earlier found) order (bytes.trans same.symm)]

/--
In every run of pushes that append to a booked batch and loads of the puller,
the loads return the lengths of the batch and tell whether it has grown
exactly when, at each load, the length has all the bits of the earlier ones.
-/
theorem detects_iff {batchSize : Nat} (small : batchSize ≤ 65535)
    {batch : WriteBatch} (writable : batch.Writable batchSize)
    (header : MessageHeader) (firstWrite : Nat) {actions : List Action}
    (sized : ∀ action ∈ actions, action.Sized) {state : Pending}
    (ran : Runs.run (Pending.step header) (.start batch firstWrite)
      actions = some state) :
    Detects state.readings ↔
      ∀ reading ∈ state.readings, Covering reading := by
  rcases Pending.run_keeps small writable sized ran with ⟨grown, logged⟩
  constructor
  · intro detects reading member
    exact (logged.records reading member).bytes_eq_last_iff.1
      (detects.truthful reading member).bytes_eq
  · intro covering
    have last : ∀ reading ∈ state.readings,
        reading.bytes = reading.lengths.getLastD 0 :=
      fun reading member =>
        (logged.records reading member).bytes_eq_last_iff.2
          (covering reading member)
    have growing : ∀ reading ∈ state.readings,
        (0 :: reading.lengths).Pairwise (fun a b => a < b) :=
      fun reading member => grown.growing.sublist
        ((logged.records reading member).part.sublist.cons_cons 0)
    constructor
    · intro reading member
      exact ⟨last reading member, still_of_last last member
        (growing reading member) (logged.records reading member)⟩
    · refine logged.ordered.imp_of_mem ?_
      intro earlier later first second order
      exact telling_of_last (growing later second) (last later second)
        (last earlier first) order

/-- Push empty messages and load the backoff. -/
def pushes (count : Nat) : List Action :=
  (List.replicate count [.write Bytes.new, .update]).flatten ++ [.load]

/-- The length `5` has the bits of `4`, and the puller can tell them apart. -/
theorem detects_iff_two :
    ∃ state,
      Runs.run (Pending.step (.new .DEFAULT (.new 1)))
          (.start (.alloc 32) 0) (pushes 1 ++ pushes 1) = some state ∧
        state.readings.length = 2 ∧ Detects state.readings := by
  have passed : (Runs.run (Pending.step (.new .DEFAULT (.new 1)))
      (.start (.alloc 32) 0) (pushes 1 ++ pushes 1)).any
        (fun state => decide (state.readings =
          [⟨4, 0, [4], 0⟩, ⟨5, 4, [4, 5], 1⟩])) = true := by
    decide +kernel
  rcases Runs.exists_of_any passed with ⟨state, ran, found⟩
  have log := of_decide_eq_true found
  have sized : ∀ action ∈ pushes 1 ++ pushes 1, action.Sized := by
    simp [pushes, Action.Sized, Bytes.new, Bytes.len]
  refine ⟨state, ran, by rw [log]; rfl, ?_⟩
  apply (detects_iff (by decide) (WriteBatch.alloc_fresh 32).writable
    (.new .DEFAULT (.new 1)) 0 sized ran).2
  rw [log]
  simp [Covering, Within]

/--
After the lengths `4`, `5` and `6` the puller reads `7`, and reads it again
after a further message: it takes the batch for one that does not grow.
-/
theorem grown_taken_for_still :
    ∃ state earlier later,
      Runs.run (Pending.step (.new .DEFAULT (.new 1)))
          (.start (.alloc 32) 0) (pushes 3 ++ pushes 1) = some state ∧
        state.readings = [earlier, later] ∧
        earlier.bytes ≠ earlier.lengths.getLastD 0 ∧
        earlier.bytes = later.bytes ∧
        earlier.lengths.length < later.lengths.length ∧
        later.verdict = .still ∧ ¬ Detects state.readings := by
  have passed : (Runs.run (Pending.step (.new .DEFAULT (.new 1)))
      (.start (.alloc 32) 0) (pushes 3 ++ pushes 1)).any
        (fun state => decide (state.readings =
          [⟨7, 0, [4, 5, 6], 0⟩, ⟨7, 7, [4, 5, 6, 7], 3⟩])) = true := by
    decide +kernel
  rcases Runs.exists_of_any passed with ⟨state, ran, found⟩
  have log := of_decide_eq_true found
  refine ⟨state, _, _, ran, log, by decide, rfl, by decide, rfl, ?_⟩
  intro detects
  have truthful := detects.truthful ⟨7, 0, [4, 5, 6], 0⟩ (by simp [log])
  cases truthful.bytes_eq

end Backoff

end Tx
end Thubo
