import Mathlib.Data.List.Forall2
import Thubo.Lib.Merge
import Thubo.Pipeline.Stage

/-!
# What one priority emits

The committed batches of a priority are described by a grammar: frames of
whole messages, and fragmented messages whose fragments follow one another.
The grammar counts the sequence numbers of both generators and the fragment
identifiers without wrapping.

Every run of the stage follows the grammar, and the messages it completes are
those that their pushes have written whole.
-/

namespace Thubo
namespace Tx

/-- A message as it is written: its length and its bytes. -/
def encodeMessage (message : List UInt8) : List UInt8 :=
  vleBytes message.length ++ message

theorem encoded_eq (msg : Bytes) : msg.encoded = encodeMessage msg.toVec := by
  rw [Bytes.encoded, encodeMessage, Bytes.length_toVec]

/-- The content of one committed batch. -/
inductive Sent where
  | frame (qos : QoS) (seqNum : SeqNum) (messages : List (List UInt8))
  | fragment (qos : QoS) (seqNum fragId : SeqNum) (kind : FragmentKind)
      (payload : List UInt8)
deriving DecidableEq, Repr

namespace Sent

/-- The bytes of the batch after its length. -/
def image : Sent → List UInt8
  | frame qos seqNum messages =>
      (Message.mk (.new qos seqNum) (.frame .new)).bytes ++
        messages.flatMap encodeMessage
  | fragment qos seqNum fragId kind payload =>
      (Message.mk (.new qos seqNum) (.fragment (.new kind fragId))).bytes ++
        payload

def qos : Sent → QoS
  | frame qos _ _ => qos
  | fragment qos _ _ _ _ => qos

/-- The header of a batch is never empty. -/
theorem length_image_pos (sent : Sent) : 0 < sent.image.length := by
  cases sent <;> simp [image, Message.bytes, MessageHeader.bytes]

/-- The congestion control whose number a batch takes. -/
def control (batch : Sent) : CongestionControl :=
  batch.qos.congestionControl

end Sent

/-! ## The grammar -/

/-- A fragmented message of which only `front` has been sent. -/
structure Partial where
  qos : QoS
  message : List UInt8
  front : List UInt8

/--
One more batch of priority `p`: the counters and the unfinished message
before and after it, and the messages it completes.
-/
inductive Emit (p : Priority) (counters : Counters) :
    Option Partial → Sent → Counters → List (List UInt8) →
      Option Partial → Prop
  | frame {unfinished : Option Partial} (qos : QoS)
      (more : List (List UInt8)) (priority : qos.priority = p)
      (nonempty : more ≠ [])
      (bounded : ∀ message ∈ more, message.length < 2 ^ 64) :
      Emit p counters unfinished
        (.frame qos (counters.number qos.congestionControl) more)
        (counters.bump qos.congestionControl) more none
  | first {unfinished : Option Partial} (qos : QoS)
      (message payload rest : List UInt8) (priority : qos.priority = p)
      (bounded : message.length < 2 ^ 64)
      (split : encodeMessage message = payload ++ rest)
      (remains : rest ≠ []) :
      Emit p counters unfinished
        (.fragment qos (counters.number qos.congestionControl)
          (SeqNum.new (counters.fragmented + 1)) .first payload)
        (counters.bump qos.congestionControl).bumpFragmented []
        (some ⟨qos, message, payload⟩)
  | more {unfinished : Partial} (payload rest : List UInt8)
      (split : encodeMessage unfinished.message =
        unfinished.front ++ payload ++ rest)
      (remains : rest ≠ []) :
      Emit p counters (some unfinished)
        (.fragment unfinished.qos
          (counters.number unfinished.qos.congestionControl)
          (SeqNum.new counters.fragmented) .more payload)
        (counters.bump unfinished.qos.congestionControl) []
        (some { unfinished with front := unfinished.front ++ payload })
  | last {unfinished : Partial} (payload : List UInt8)
      (split : encodeMessage unfinished.message =
        unfinished.front ++ payload) :
      Emit p counters (some unfinished)
        (.fragment unfinished.qos
          (counters.number unfinished.qos.congestionControl)
          (SeqNum.new counters.fragmented) .last payload)
        (counters.bump unfinished.qos.congestionControl)
        [unfinished.message] none

/--
The batches `sent` of priority `p`, the numbers they use, the messages they
complete, and the message they leave unfinished.
-/
inductive Emits (p : Priority) :
    List Sent → Counters → List (List UInt8) → Option Partial → Prop
  | nil : Emits p [] .zero [] none
  | snoc {sent : List Sent} {counters after : Counters}
      {messages more : List (List UInt8)}
      {unfinished next : Option Partial} {batch : Sent}
      (before : Emits p sent counters messages unfinished)
      (last : Emit p counters unfinished batch after more next) :
      Emits p (sent ++ [batch]) after (messages ++ more) next

/-- A message of the priority whose length fits a `u64`. -/
def Partial.At (part : Partial) (p : Priority) : Prop :=
  part.qos.priority = p ∧ part.message.length < 2 ^ 64

theorem Emit.unfinished_at {p : Priority} {counters after : Counters}
    {unfinished next : Option Partial} {batch : Sent}
    {more : List (List UInt8)}
    (emit : Emit p counters unfinished batch after more next)
    (before : ∀ part, unfinished = some part → part.At p) :
    ∀ part, next = some part → part.At p := by
  cases emit with
  | frame qos more priority nonempty bounded => simp
  | first qos message payload rest priority bounded split remains =>
      rintro part same
      cases same
      exact ⟨priority, bounded⟩
  | @more unfinished payload rest split remains =>
      rintro part same
      cases same
      exact before unfinished rfl
  | last payload split => simp

/-- The unfinished message is one of the priority. -/
theorem Emits.unfinished_at {p : Priority} {sent : List Sent}
    {counters : Counters} {messages : List (List UInt8)}
    {unfinished : Option Partial}
    (emits : Emits p sent counters messages unfinished) :
    ∀ part, unfinished = some part → part.At p := by
  induction emits with
  | nil => simp
  | snoc before last hypothesis => exact last.unfinished_at hypothesis

/-- Every batch is one of the priority. -/
theorem Emits.priority_eq {p : Priority} {sent : List Sent}
    {counters : Counters} {messages : List (List UInt8)}
    {unfinished : Option Partial}
    (emits : Emits p sent counters messages unfinished) :
    ∀ batch ∈ sent, batch.qos.priority = p := by
  induction emits with
  | nil => simp
  | snoc before last hypothesis =>
      intro batch member
      rcases List.mem_append.1 member with earlier | here
      · exact hypothesis batch earlier
      · cases List.mem_singleton.1 here
        cases last with
        | frame qos more priority => exact priority
        | first qos message payload rest priority => exact priority
        | more => exact (before.unfinished_at _ rfl).1
        | last => exact (before.unfinished_at _ rfl).1

theorem Emits.nil_cases {p : Priority} {counters : Counters}
    {messages : List (List UInt8)} {unfinished : Option Partial}
    (emits : Emits p [] counters messages unfinished) :
    counters = .zero ∧ messages = [] ∧ unfinished = none := by
  generalize whole : ([] : List Sent) = all at emits
  cases emits with
  | nil => exact ⟨rfl, rfl, rfl⟩
  | snoc before last => simp at whole

/-- The last batch of a sequence. -/
theorem Emits.concat_cases {p : Priority} {sent : List Sent} {batch : Sent}
    {after : Counters} {messages : List (List UInt8)}
    {next : Option Partial}
    (emits : Emits p (sent ++ [batch]) after messages next) :
    ∃ counters front unfinished more,
      Emits p sent counters front unfinished ∧
        Emit p counters unfinished batch after more next ∧
        messages = front ++ more := by
  generalize whole : sent ++ [batch] = all at emits
  cases emits with
  | nil => simp at whole
  | snoc before last =>
      rcases List.append_inj' whole rfl with ⟨rfl, same⟩
      cases same
      exact ⟨_, _, _, _, before, last, rfl⟩

/-- A batch takes one number of its congestion control. -/
theorem Emit.sent_eq {p : Priority} {counters after : Counters}
    {unfinished next : Option Partial} {batch : Sent}
    {more : List (List UInt8)}
    (emit : Emit p counters unfinished batch after more next)
    (cc : CongestionControl) :
    after.sent cc =
      if cc = batch.control then counters.sent cc + 1
      else counters.sent cc := by
  have bumped : ∀ other : CongestionControl,
      (if cc = other then counters.sent other + 1 else counters.sent cc) =
        if cc = other then counters.sent cc + 1 else counters.sent cc := by
    intro other
    split
    · rename_i same
      rw [same]
    · rfl
  cases emit <;> exact bumped _

theorem Emit.sent_control {p : Priority} {counters after : Counters}
    {unfinished next : Option Partial} {batch : Sent}
    {more : List (List UInt8)}
    (emit : Emit p counters unfinished batch after more next) :
    after.sent batch.control = counters.sent batch.control + 1 := by
  rw [emit.sent_eq, if_pos rfl]

/-- Only a first fragment takes an identifier. -/
theorem Emit.fragmented_le {p : Priority} {counters after : Counters}
    {unfinished next : Option Partial} {batch : Sent}
    {more : List (List UInt8)}
    (emit : Emit p counters unfinished batch after more next) :
    counters.fragmented ≤ after.fragmented := by
  cases emit with
  | first => exact Nat.le_succ _
  | frame => exact Nat.le_refl _
  | more => exact Nat.le_refl _
  | last => exact Nat.le_refl _

theorem Bounded.before {p : Priority} {counters after : Counters}
    {unfinished next : Option Partial} {batch : Sent}
    {more : List (List UInt8)} (bounded : Bounded after)
    (emit : Emit p counters unfinished batch after more next) :
    Bounded counters := by
  refine ⟨fun cc => ?_, ?_⟩
  · have later := bounded.sent cc
    rw [emit.sent_eq cc] at later
    split at later <;> omega
  · exact Nat.lt_of_le_of_lt emit.fragmented_le bounded.fragmented

/-! ## Batches that carry what is sent -/

/-- A batch holds the bytes of `sent`. -/
structure Carries (batchSize : Nat) (batch : WriteBatch) (sent : Sent) :
    Prop where
  headed : batch.Headed
  content_eq : batch.content = sent.image
  length_le : sent.image.length ≤ batchSize
  priority_eq : batch.qos.priority = sent.qos.priority

/-- The booked batch holds a frame whose number is already taken. -/
structure CarriesFrame (batchSize : Nat) (batch : WriteBatch) (qos : QoS)
    (seqNum : SeqNum) (messages : List (List UInt8)) : Prop where
  carries : Carries batchSize batch (.frame qos seqNum messages)
  whole : batch.fragment = Bytes.new
  capacity_eq :
    batch.frame.capacity = WriteBatch.BATCH_LEN + batchSize

/--
The messages that pushes have written whole, in lock order.  Their results are
those of the stage: after that a push only notifies the puller, and returns
`Closed` when this fails.
-/
def accepted (log : List Finished) : List (List UInt8) :=
  log.filterMap fun entry =>
    match entry.result with
    | .ok _ => some entry.msg.toVec
    | .error _ => none

theorem accepted_ok (log : List Finished) (msg : Bytes) (qos : QoS) :
    accepted (log ++ [⟨msg, qos, .ok ()⟩]) = accepted log ++ [msg.toVec] := by
  simp [accepted]

theorem accepted_error (log : List Finished) (msg : Bytes) (qos : QoS)
    (error : SendError) :
    accepted (log ++ [⟨msg, qos, .error error⟩]) = accepted log := by
  simp [accepted]

/-! ## The invariant of a stage -/

/-- The generators hold the last numbers taken. -/
structure Numbered (pool : SeqNumPool) (used : Counters) : Prop where
  gen_eq : ∀ cc, pool.gen cc = SeqNum.new (used.sent cc)
  fragId_eq : pool.fragId = SeqNum.new used.fragmented

/-- What a push in progress has still to send. -/
def Continues (stage : Stage) (unfinished : Option Partial)
    (push : Push) : Prop :=
  match push.point with
  | .start => True
  | .fresh => stage.booked = none
  | .fragments seqNum fragId reader =>
      stage.booked = none ∧ reader.Placed ∧ reader.rest ≠ [] ∧
        seqNum = (stage.pool.gen push.qos.congestionControl).next ∧
        fragId = stage.pool.fragId ∧
        ∃ front, unfinished = some ⟨push.qos, push.msg.toVec, front⟩ ∧
          encodeMessage push.msg.toVec = front ++ reader.rest

/--
The committed batches follow the grammar, whose counters are those of the
stage up to the booked frame, and the accepted messages are those completed
or booked.
-/
structure Describes (p : Priority) (stage : Stage) (sent : List Sent)
    (counters : Counters) (messages : List (List UInt8))
    (unfinished : Option Partial) : Prop where
  emits : Emits p sent counters messages unfinished
  carried : List.Forall₂ (Carries stage.batchSize) stage.committed sent
  numbered : Numbered stage.pool stage.used
  unbooked : stage.booked = none →
    stage.used = counters ∧ accepted stage.log = messages
  booked : ∀ batch, stage.booked = some batch →
    ∃ qos more, qos.priority = p ∧ more ≠ [] ∧
      (∀ message ∈ more, message.length < 2 ^ 64) ∧
      CarriesFrame stage.batchSize batch qos
        (counters.number qos.congestionControl) more ∧
      stage.used = counters.bump qos.congestionControl ∧
      accepted stage.log = messages ++ more
  running : ∀ push, stage.running = some push →
    push.qos.priority = p ∧ push.msg.len < 2 ^ 64 ∧
      Continues stage unfinished push

/-- Every committed batch is one of the priority. -/
theorem Describes.priority_eq {p : Priority} {stage : Stage}
    {sent : List Sent} {counters : Counters}
    {messages : List (List UInt8)} {unfinished : Option Partial}
    (describes : Describes p stage sent counters messages unfinished)
    {batch : WriteBatch} (member : batch ∈ stage.committed) :
    batch.qos.priority = p := by
  rcases List.append_of_mem member with ⟨front, back, split⟩
  have carried := describes.carried
  rw [split] at carried
  rcases Merge.forall₂_split carried with ⟨front', s, back', rfl, here, _⟩
  rw [here.priority_eq]
  exact describes.emits.priority_eq s (by simp)

/-- The batch size allows the longest header and fits a `u16`. -/
def Wide (stage : Stage) : Prop :=
  19 ≤ stage.batchSize ∧ stage.batchSize ≤ 65535

/-- Some description of the stage. -/
def Described (p : Priority) (stage : Stage) : Prop :=
  ∃ sent counters messages unfinished,
    Describes p stage sent counters messages unfinished

theorem described_new (p : Priority) (batchSize : Nat) :
    Described p (Stage.new batchSize) := by
  refine ⟨[], .zero, [], none, .nil, .nil, ⟨?_, rfl⟩,
    fun _ => ⟨rfl, rfl⟩, ?_, ?_⟩
  · intro cc
    cases cc <;> rfl
  · intro batch impossible
    cases impossible
  · intro push impossible
    cases impossible

/-- The next number of a generator is the next of the counters. -/
theorem Numbered.next_eq {pool : SeqNumPool} {used : Counters}
    (numbered : Numbered pool used) (cc : CongestionControl) :
    (pool.gen cc).next = used.number cc := by
  rw [numbered.gen_eq cc, SeqNum.next_new]
  rfl

theorem Numbered.takeNumber {stage : Stage}
    (numbered : Numbered stage.pool stage.used) (cc : CongestionControl) :
    Numbered (stage.takeNumber (stage.used.number cc) cc).pool
      (stage.takeNumber (stage.used.number cc) cc).used := by
  constructor
  · intro other
    simp only [Stage.takeNumber, SeqNumPool.gen_setGen, Counters.sent_bump]
    split
    · rfl
    · exact numbered.gen_eq other
  · simp only [Stage.takeNumber, SeqNumPool.fragId_setGen,
      Counters.fragmented_bump, numbered.fragId_eq]

theorem Numbered.takeFragId {stage : Stage}
    (numbered : Numbered stage.pool stage.used) :
    Numbered (stage.takeFragId stage.pool.fragId.next).pool
      (stage.takeFragId stage.pool.fragId.next).used := by
  constructor
  · intro cc
    cases cc with
    | block => exact numbered.gen_eq .block
    | drop => exact numbered.gen_eq .drop
  · change stage.pool.fragId.next = SeqNum.new (stage.used.fragmented + 1)
    rw [numbered.fragId_eq, SeqNum.next_new]

/-! ## Moving batches out -/

variable {p : Priority} {stage : Stage} {sent : List Sent}
variable {counters : Counters} {messages : List (List UInt8)}
variable {unfinished : Option Partial}

theorem extends_refl : stage.Extends stage :=
  ⟨rfl, List.prefix_refl _⟩

theorem extends_returnNotify (push : Push) (batch : WriteBatch)
    (flush : Bool) :
    stage.Extends (stage.returnNotify push batch flush) := by
  unfold Stage.returnNotify
  split
  · exact ⟨rfl, List.prefix_append _ _⟩
  · exact ⟨rfl, List.prefix_refl _⟩

/-- Committing the booked frame completes its messages. -/
theorem Describes.commit
    (describes : Describes p stage sent counters messages unfinished)
    {batch : WriteBatch} (isBooked : stage.booked = some batch) :
    ∃ qos more,
      Describes p { stage.commit batch with running := none }
        (sent ++ [.frame qos (counters.number qos.congestionControl) more])
        (counters.bump qos.congestionControl) (messages ++ more) none := by
  rcases describes.booked batch isBooked with
    ⟨qos, more, priority, nonempty, bounded, frame, used, log⟩
  refine ⟨qos, more,
    describes.emits.snoc (.frame qos more priority nonempty bounded),
    List.rel_append describes.carried (.cons frame.carries .nil),
    describes.numbered, fun _ => ⟨used, log⟩, ?_, ?_⟩
  · intro other impossible
    cases impossible
  · intro push impossible
    cases impossible

/-- A push that has written a frame ends with `Ok`. -/
theorem returnNotify_described
    (emits : Emits p sent counters messages unfinished)
    (carried : List.Forall₂ (Carries stage.batchSize) stage.committed sent)
    (numbered : Numbered stage.pool stage.used)
    {batch : WriteBatch} {qos : QoS} {more : List (List UInt8)}
    (priority : qos.priority = p) (nonempty : more ≠ [])
    (bounded : ∀ message ∈ more, message.length < 2 ^ 64)
    (frame : CarriesFrame stage.batchSize batch qos
      (counters.number qos.congestionControl) more)
    (used : stage.used = counters.bump qos.congestionControl)
    {push : Push}
    (log : accepted stage.log ++ [push.msg.toVec] = messages ++ more)
    (flush : Bool) :
    Described p (stage.returnNotify push batch flush) := by
  have ended : accepted
      (stage.log ++ [⟨push.msg, push.qos, .ok ()⟩]) = messages ++ more := by
    rw [accepted_ok, log]
  unfold Stage.returnNotify
  split
  · refine ⟨_, _, _, none,
      emits.snoc (.frame qos more priority nonempty bounded),
      List.rel_append carried (.cons frame.carries .nil), numbered,
      fun _ => ⟨used, ended⟩, ?_, ?_⟩
    · intro other impossible
      cases impossible
    · intro other impossible
      cases impossible
  · refine ⟨_, _, _, _, emits, carried, numbered, ?_, ?_, ?_⟩
    · intro impossible
      cases impossible
    · intro other same
      cases same
      exact ⟨qos, more, priority, nonempty, bounded, frame, used, ended⟩
    · intro other impossible
      cases impossible

/-- A fragment that leaves part of the message suspends the push. -/
theorem moveFragment_suspends {batch : WriteBatch} {last : Sent}
    {push : Push} {front : List UInt8} {fragId : SeqNum}
    {reader : BytesReader}
    (emits : Emits p (sent ++ [last]) counters messages
      (some ⟨push.qos, push.msg.toVec, front⟩))
    (carried : List.Forall₂ (Carries stage.batchSize) stage.committed sent)
    (carries : Carries stage.batchSize batch last)
    (numbered : Numbered stage.pool stage.used)
    (used : stage.used = counters) (sameId : fragId = stage.pool.fragId)
    (log : accepted stage.log = messages)
    (priority : push.qos.priority = p) (bounded : push.msg.len < 2 ^ 64)
    (placed : reader.Placed) (remains : reader.rest ≠ [])
    (split : encodeMessage push.msg.toVec = front ++ reader.rest) :
    ∃ after, stage.moveFragment push batch fragId reader = .ok after ∧
      stage.Extends after ∧ Described p after := by
  have positive : reader.rest.length ≠ 0 := by
    rwa [Ne, List.length_eq_zero_iff]
  refine ⟨(stage.commit batch).suspend push
    (.fragments (stage.pool.gen push.qos.congestionControl).next fragId
      reader), ?_, ⟨rfl, List.prefix_append _ _⟩, ?_⟩
  · simp only [Stage.moveFragment, placed.remaining_eq, ok_bind,
      if_pos positive]
    rfl
  · refine ⟨_, _, _, _, emits,
      List.rel_append carried (.cons carries .nil), numbered,
      fun _ => ⟨used, log⟩, ?_, ?_⟩
    · intro other impossible
      cases impossible
    · intro other same
      cases same
      exact ⟨priority, bounded, rfl, placed, remains, rfl, sameId, front,
        rfl, split⟩

/-- A fragment that leaves nothing ends the push with `Ok`. -/
theorem moveFragment_finishes {batch : WriteBatch} {last : Sent}
    {push : Push} {fragId : SeqNum} {reader : BytesReader}
    (emits : Emits p (sent ++ [last]) counters
      (messages ++ [push.msg.toVec]) none)
    (carried : List.Forall₂ (Carries stage.batchSize) stage.committed sent)
    (carries : Carries stage.batchSize batch last)
    (numbered : Numbered stage.pool stage.used)
    (used : stage.used = counters) (log : accepted stage.log = messages)
    (placed : reader.Placed) (empty : reader.rest = []) :
    ∃ after, stage.moveFragment push batch fragId reader = .ok after ∧
      stage.Extends after ∧ Described p after := by
  refine ⟨(stage.commit batch).finish push (.ok ()), ?_,
    ⟨rfl, List.prefix_append _ _⟩, ?_⟩
  · simp only [Stage.moveFragment, placed.remaining_eq, empty, ok_bind]
    rfl
  · refine ⟨_, _, _, none, emits,
      List.rel_append carried (.cons carries .nil), numbered,
      fun _ => ⟨used, ?_⟩, ?_, ?_⟩
    · change accepted (stage.log ++ [⟨push.msg, push.qos, .ok ()⟩]) = _
      rw [accepted_ok, log]
    · intro other impossible
      cases impossible
    · intro other impossible
      cases impossible

/-! ## The steps of a push -/

/-- A fresh batch that takes the bytes of `sent` carries it. -/
theorem carries_put {capacity : Nat} {batch : WriteBatch}
    (fresh : batch.Fresh capacity) {sent : Sent}
    (priority : batch.qos.priority = sent.qos.priority)
    (room : sent.image.length ≤ batch.frame.remaining) :
    Carries capacity (batch.put sent.image room) sent := by
  refine ⟨fresh.headed.put room, ?_, ?_, priority⟩
  · rw [WriteBatch.content_put fresh.headed fresh.fragment_eq room,
      fresh.content_eq, List.nil_append]
  · rwa [← fresh.remaining_eq]

/-- What a fragmenting step wrote carries the fragment. -/
theorem carries_wrote {capacity : Nat} {before after : WriteBatch}
    {msg : Bytes} {reader : BytesReader} {rest : List UInt8} {sent : Sent}
    (wrote : WriteBatch.Wrote capacity before after sent.image msg reader
      rest)
    (priority : before.qos.priority = sent.qos.priority) :
    Carries capacity after sent :=
  ⟨wrote.headed, wrote.content_eq, wrote.length_le,
    by rw [wrote.qos_eq, priority]⟩

/-- The image of a frame that starts with one message. -/
theorem image_frame_singleton (qos : QoS) (seqNum : SeqNum)
    (msg : Bytes) :
    (Sent.frame qos seqNum [msg.toVec]).image =
      (Message.mk (.new qos seqNum) (.frame .new)).bytes ++ msg.encoded := by
  simp [Sent.image, encoded_eq]

/-- The image of the first fragment of a message. -/
theorem image_first (qos : QoS) (seqNum fragId : SeqNum) (msg : Bytes)
    (taken : Nat) :
    (Sent.fragment qos seqNum fragId .first
      (vleBytes msg.len ++ msg.toVec.take taken)).image =
      WriteBatch.firstHeader (.new qos seqNum) fragId msg ++
        msg.toVec.take taken := by
  simp [Sent.image, WriteBatch.firstHeader]

/-- A push on a fresh batch writes a frame or the first fragment. -/
theorem frameStep_described
    (describes : Describes p stage sent counters messages unfinished)
    (free : stage.booked = none) {push : Push}
    (isRunning : stage.running = some push) {batch : WriteBatch}
    (fresh : batch.Fresh stage.batchSize) (sameQos : batch.qos = push.qos)
    (takes : stage.takes push batch = true) (flush : Bool) :
    ∃ after, stage.frameStep push batch flush = .ok after ∧
      stage.Extends after ∧ Described p after := by
  rcases describes.unbooked free with ⟨rfl, log⟩
  rcases describes.running push isRunning with ⟨priority, bounded, _⟩
  have numbered := describes.numbered
  have number := numbered.next_eq push.qos.congestionControl
  have length := push.msg.length_toVec
  have spec := batch.startFrame_spec
    (.new push.qos (stage.used.number push.qos.congestionControl)) bounded
  rw [← image_frame_singleton] at spec
  rw [Stage.takes, Bool.or_eq_true, decide_eq_true_iff, decide_eq_true_iff,
    number, fresh.remaining_eq] at takes
  unfold Stage.frameStep
  simp only [number]
  by_cases fits : (Sent.frame push.qos
      (stage.used.number push.qos.congestionControl)
      [push.msg.toVec]).image.length ≤ batch.frame.remaining
  · rw [spec.1 fits, ok_bind]
    refine ⟨_, rfl, extends_returnNotify .., ?_⟩
    refine returnNotify_described describes.emits ?_ ?_ priority
      (List.cons_ne_nil push.msg.toVec []) ?_ ?_ ?_ ?_ flush
    · exact describes.carried
    · exact numbered.takeNumber _
    · intro message member
      rw [List.mem_singleton.1 member]
      omega
    · refine ⟨carries_put fresh ?_ fits, fresh.fragment_eq,
        fresh.capacity_eq⟩
      exact congrArg QoS.priority sameQos
    · rfl
    · rw [← log]
      rfl
  · have tooLong := Nat.lt_of_not_le fits
    rw [spec.2 tooLong, ok_bind]
    rw [image_frame_singleton, List.length_append, Message.length_bytes,
      Bytes.length_encoded _ bounded, fresh.remaining_eq] at tooLong
    have dropped := fresh.flagged
      (stage.takeFragId stage.pool.fragId.next).dropFlag
    rcases WriteBatch.startFragments_spec dropped
        (.new push.qos (stage.used.number push.qos.congestionControl))
        stage.pool.fragId.next bounded
        (takes.resolve_left (Nat.not_le_of_lt tooLong)) tooLong with
      ⟨taken, after, reader, run, less, wrote⟩
    have fragId :
        stage.pool.fragId.next = SeqNum.new (stage.used.fragmented + 1) := by
      rw [numbered.fragId_eq, SeqNum.next_new]
    rw [← image_first] at wrote
    have remains : push.msg.toVec.drop taken ≠ [] := by
      rw [Ne, List.drop_eq_nil_iff]
      omega
    have whole : encodeMessage push.msg.toVec =
        vleBytes push.msg.len ++ push.msg.toVec.take taken ++
          push.msg.toVec.drop taken := by
      rw [encodeMessage, length, List.append_assoc, List.take_append_drop]
    have emits := describes.emits.snoc (.first push.qos push.msg.toVec
      (vleBytes push.msg.len ++ push.msg.toVec.take taken)
      (push.msg.toVec.drop taken) priority (by omega) whole remains)
    simp only [run, ok_bind]
    rw [← fragId, List.append_nil] at emits
    refine moveFragment_suspends emits describes.carried
      (carries_wrote wrote (congrArg QoS.priority sameQos)) ?_ rfl ?_ log
      priority bounded wrote.placed ?_ ?_
    · exact numbered.takeFragId.takeNumber _
    · rw [Stage.takeNumber, SeqNumPool.fragId_setGen]
      rfl
    · rwa [wrote.rest_eq]
    · rwa [wrote.rest_eq]

/-- A push that goes on with a fragmented message writes the next one. -/
theorem fragmentStep_described
    (describes : Describes p stage sent counters messages unfinished)
    {push : Push} (isRunning : stage.running = some push)
    {seqNum fragId : SeqNum} {reader : BytesReader}
    (waits : push.point = .fragments seqNum fragId reader)
    (headed : WriteBatch.fragmentWLen (.new push.qos seqNum) fragId ≤
      stage.batchSize)
    {batch : WriteBatch} (fresh : batch.Fresh stage.batchSize)
    (sameQos : batch.qos = push.qos) :
    ∃ after,
      stage.fragmentStep push batch seqNum fragId reader = .ok after ∧
        stage.Extends after ∧ Described p after := by
  rcases describes.running push isRunning with ⟨priority, bounded, goesOn⟩
  rw [Continues, waits] at goesOn
  rcases goesOn with
    ⟨free, placed, remains, rfl, rfl, front, rfl, split⟩
  rcases describes.unbooked free with ⟨rfl, log⟩
  have numbered := describes.numbered
  have number := numbered.next_eq push.qos.congestionControl
  rw [number] at headed
  rcases WriteBatch.continueFragments_spec fresh
      (.new push.qos (stage.used.number push.qos.congestionControl))
      stage.pool.fragId headed placed with
    ⟨taken, kind, after, next, run, proper, final, wrote⟩
  have image : (Message.mk (.new push.qos
        (stage.used.number push.qos.congestionControl))
        (.fragment (.new kind stage.pool.fragId))).bytes ++
      reader.rest.take taken =
        (Sent.fragment push.qos
          (stage.used.number push.qos.congestionControl) stage.pool.fragId
          kind (reader.rest.take taken)).image :=
    rfl
  rw [image] at wrote
  have carries := carries_wrote wrote (congrArg QoS.priority sameQos)
  have shifted := numbered.takeNumber push.qos.congestionControl
  have whole : encodeMessage push.msg.toVec =
      front ++ reader.rest.take taken ++ reader.rest.drop taken := by
    rw [split, List.append_assoc, List.take_append_drop]
  unfold Stage.fragmentStep
  simp only [number, run, ok_bind]
  rcases proper with rfl | rfl
  · have more : reader.rest.drop taken ≠ [] := fun nothing =>
      nomatch final.2 nothing
    have emits := describes.emits.snoc (.more (reader.rest.take taken)
      (reader.rest.drop taken) whole more)
    rw [← numbered.fragId_eq, List.append_nil] at emits
    refine moveFragment_suspends emits describes.carried carries shifted
      rfl ?_ log priority bounded wrote.placed ?_ ?_
    · exact (SeqNumPool.fragId_setGen ..).symm
    · rwa [wrote.rest_eq]
    · rwa [wrote.rest_eq]
  · have nothing := final.1 rfl
    rw [nothing, List.append_nil] at whole
    have emits :=
      describes.emits.snoc (.last (reader.rest.take taken) whole)
    rw [← numbered.fragId_eq] at emits
    refine moveFragment_finishes emits describes.carried carries shifted
      rfl log wrote.placed ?_
    rwa [wrote.rest_eq]

/-- A refilled batch is fresh. -/
theorem refilled_fresh (free : stage.booked = none) (qos : QoS)
    (drop : Option Nat) :
    (stage.batch qos drop).Fresh stage.batchSize ∧
      (stage.batch qos drop).qos = qos := by
  have alloc := WriteBatch.alloc_fresh stage.batchSize
  rw [Stage.batch, free]
  exact ⟨⟨alloc.capacity_eq, alloc.data_eq, alloc.fragment_eq⟩, rfl⟩

/-- The length of a batch that carries something is the true one. -/
theorem Carries.len_eq {batchSize : Nat} {batch : WriteBatch} {sent : Sent}
    (carries : Carries batchSize batch sent) (small : batchSize ≤ 65535) :
    batch.len = sent.image.length := by
  have length := batch.length_content
  have bounded := carries.length_le
  rw [carries.content_eq] at length
  rw [WriteBatch.len, ← length]
  exact Nat.mod_eq_of_lt (by omega)

theorem image_frame_concat (qos : QoS) (seqNum : SeqNum)
    (messages : List (List UInt8)) (message : List UInt8) :
    (Sent.frame qos seqNum (messages ++ [message])).image =
      (Sent.frame qos seqNum messages).image ++ encodeMessage message := by
  simp [Sent.image]

/-- The pending batch is moved out and the push waits for a fresh one. -/
theorem moveOut_described
    (describes : Describes p stage sent counters messages unfinished)
    {push : Push} (isRunning : stage.running = some push)
    {batch : WriteBatch} (isBooked : stage.booked = some batch) :
    Described p ((stage.commit batch).suspend push .fresh) := by
  rcases describes.running push isRunning with ⟨priority, bounded, _⟩
  rcases describes.commit isBooked with ⟨qos, more, committed⟩
  refine ⟨_, _, _, _, committed.emits, committed.carried,
    committed.numbered, fun _ => committed.unbooked rfl, ?_, ?_⟩
  · intro other impossible
    cases impossible
  · intro other same
    cases same
    exact ⟨priority, bounded, rfl⟩

/-- A push appends to the booked frame or moves it out. -/
theorem append_described
    (describes : Describes p stage sent counters messages unfinished)
    {push : Push} (isRunning : stage.running = some push)
    {batch : WriteBatch} (isBooked : stage.booked = some batch)
    (flush : Bool) :
    (∃ after, batch.append push.msg = .ok (true, after) ∧
      Described p (stage.returnNotify push after flush)) ∨
    batch.append push.msg = .ok (false, batch) := by
  rcases describes.running push isRunning with ⟨_, bounded, _⟩
  rcases describes.booked batch isBooked with
    ⟨qos, more, priority, nonempty, smaller, frame, used, log⟩
  have program := Bytes.write_writes push.msg bounded
  have length := push.msg.length_toVec
  have encode := WriteBatch.encode_spec program batch
  by_cases fits : push.msg.encoded.length ≤ batch.frame.remaining
  · left
    refine ⟨_, encode.1 fits, ?_⟩
    refine returnNotify_described describes.emits describes.carried
      describes.numbered priority
      (List.append_ne_nil_of_right_ne_nil more
        (List.cons_ne_nil push.msg.toVec [])) ?_ ?_ used ?_ flush
    · intro message member
      rcases List.mem_append.1 member with old | new
      · exact smaller message old
      · rw [List.mem_singleton.1 new]
        omega
    · have headed := frame.carries.headed
      have content := frame.carries.content_eq
      have room := frame.capacity_eq
      have image := image_frame_concat qos
        (counters.number qos.congestionControl) more push.msg.toVec
      rw [← encoded_eq] at image
      refine ⟨⟨headed.put fits, ?_, ?_, frame.carries.priority_eq⟩,
        frame.whole, room⟩
      · rw [WriteBatch.content_put headed frame.whole fits, content, image]
      · have old := batch.length_content
        have before := frame.carries.length_le
        have nothing : Bytes.new.len = 0 := rfl
        have left : push.msg.encoded.length ≤
            WriteBatch.BATCH_LEN + stage.batchSize -
              batch.frame.data.length := by
          rwa [← room]
        rw [content, frame.whole, nothing, BoxBuf.len] at old
        unfold WriteBatch.Headed at headed
        rw [image, List.length_append, old]
        omega
    · rw [log, List.append_assoc]
  · exact Or.inr (encode.2 (Nat.lt_of_not_le fits))

/-- A booked batch is not empty. -/
theorem Describes.filled
    (describes : Describes p stage sent counters messages unfinished)
    (small : stage.batchSize ≤ 65535) {batch : WriteBatch}
    (isBooked : stage.booked = some batch) : batch.isEmpty = false := by
  rcases describes.booked batch isBooked with
    ⟨qos, more, _, _, _, frame, _⟩
  have positive := Sent.length_image_pos
    (.frame qos (counters.number qos.congestionControl) more)
  simp only [WriteBatch.isEmpty, frame.carries.len_eq small,
    beq_eq_false_iff_ne]
  omega

/-- The running push takes a batch and keeps the stage described. -/
theorem resume_described
    (describes : Describes p stage sent counters messages unfinished)
    (small : stage.batchSize ≤ 65535) {push : Push}
    (isRunning : stage.running = some push)
    (roomy : stage.roomy = true) (flush : Bool) :
    ∃ after, stage.resume push flush = .ok after ∧
      stage.Extends after ∧ Described p after := by
  rcases describes.running push isRunning with ⟨_, _, goesOn⟩
  simp only [Stage.roomy, isRunning] at roomy
  unfold Continues at goesOn
  unfold Stage.resume
  cases point : push.point with
  | fragments seqNum fragId reader =>
      rw [point] at goesOn roomy
      rcases refilled_fresh goesOn.1 push.qos stage.dropFlag with
        ⟨fresh, sameQos⟩
      have headed := of_decide_eq_true roomy
      rw [fresh.remaining_eq] at headed
      exact fragmentStep_described describes isRunning point headed fresh
        sameQos
  | fresh =>
      rw [point] at goesOn roomy
      rcases refilled_fresh goesOn push.qos none with ⟨fresh, sameQos⟩
      exact frameStep_described describes goesOn isRunning fresh
        sameQos roomy flush
  | start =>
      cases isBooked : stage.booked with
      | none =>
          rcases refilled_fresh isBooked push.qos none with
            ⟨fresh, sameQos⟩
          have empty : (stage.batch push.qos none).isEmpty = true := by
            have length := (stage.batch push.qos none).length_content
            rw [fresh.content_eq] at length
            simp [WriteBatch.isEmpty, WriteBatch.len, ← length]
          simp only [point, empty, Bool.not_true, Bool.false_or] at roomy
          simp only [empty, if_true]
          exact frameStep_described describes isBooked isRunning fresh
            sameQos roomy flush
      | some batch =>
          have same : stage.batch push.qos none = batch := by
            rw [Stage.batch, isBooked]
          have filled := describes.filled small isBooked
          simp only [same, filled, Bool.false_eq_true, if_false]
          split
          · rcases append_described describes isRunning isBooked flush with
              ⟨after, run, described⟩ | run
            · rw [run, ok_bind]
              exact ⟨_, rfl, extends_returnNotify .., described⟩
            · rw [run, ok_bind]
              exact ⟨_, rfl, ⟨rfl, List.prefix_append _ _⟩,
                moveOut_described describes isRunning isBooked⟩
          · exact ⟨_, rfl, ⟨rfl, List.prefix_append _ _⟩,
              moveOut_described describes isRunning isBooked⟩

/-! ## Runs of one priority -/

/-- A push at the priority with a message whose length fits a `u64`. -/
def Stage.Action.At (p : Priority) : Stage.Action → Prop
  | .begin msg qos => qos.priority = p ∧ msg.len < 2 ^ 64
  | _ => True

/-- Every step with room for what it writes keeps the description. -/
theorem step_described_of_roomy (described : Described p stage)
    (small : stage.batchSize ≤ 65535) {action : Stage.Action}
    (at_ : action.At p)
    (roomy : ∀ flush, action = .resume flush → stage.roomy = true) :
    ∃ result, stage.step action = .ok result ∧
      ∀ after, result = some after →
        stage.Extends after ∧ Described p after := by
  rcases described with ⟨sent, counters, messages, unfinished, describes⟩
  cases action with
  | begin msg qos =>
      cases isRunning : stage.running with
      | some push =>
          refine ⟨none, by simp only [Stage.step, isRunning]; rfl, ?_⟩
          intro after impossible
          cases impossible
      | none =>
          refine ⟨some { stage with running := some ⟨msg, qos, .start⟩ },
            by simp only [Stage.step, isRunning]; rfl, ?_⟩
          rintro after same
          cases same
          refine ⟨extends_refl, sent, counters, messages, unfinished,
            describes.emits, describes.carried, describes.numbered,
            describes.unbooked, describes.booked, ?_⟩
          intro push same
          cases same
          exact ⟨at_.1, at_.2, trivial⟩
  | resume flush =>
      cases isRunning : stage.running with
      | none =>
          refine ⟨none, by simp only [Stage.step, isRunning]; rfl, ?_⟩
          intro after impossible
          cases impossible
      | some push =>
          rcases resume_described describes small isRunning
              (roomy flush rfl) flush with
            ⟨next, run, sameSize, kept⟩
          refine ⟨some next,
            by simp only [Stage.step, isRunning, run]; rfl, ?_⟩
          rintro after same
          cases same
          exact ⟨sameSize, kept⟩
  | abandon error =>
      cases isRunning : stage.running with
      | none =>
          refine ⟨none, by simp only [Stage.step, isRunning]; rfl, ?_⟩
          intro after impossible
          cases impossible
      | some push =>
          cases isBooked : stage.booked with
          | some batch =>
              refine ⟨none,
                by simp only [Stage.step, isRunning, isBooked]; rfl, ?_⟩
              intro after impossible
              cases impossible
          | none =>
              refine ⟨some (stage.finish push (.error error)),
                by simp only [Stage.step, isRunning, isBooked]; rfl, ?_⟩
              rintro after same
              cases same
              rcases describes.unbooked isBooked with ⟨used, log⟩
              refine ⟨extends_refl, sent, counters, messages, unfinished,
                describes.emits, describes.carried, describes.numbered,
                fun _ => ⟨used, ?_⟩, ?_, ?_⟩
              · rw [← log]
                exact accepted_error _ _ _ _
              · intro batch same
                change stage.booked = some batch at same
                rw [isBooked] at same
                cases same
              · intro push impossible
                cases impossible
  | flush =>
      cases isRunning : stage.running with
      | some push =>
          refine ⟨none, by simp only [Stage.step, isRunning]; rfl, ?_⟩
          intro after impossible
          cases impossible
      | none =>
          cases isBooked : stage.booked with
          | none =>
              refine ⟨none,
                by simp only [Stage.step, isRunning, isBooked]; rfl, ?_⟩
              intro after impossible
              cases impossible
          | some batch =>
              refine ⟨some (stage.commit batch),
                by simp only [Stage.step, isRunning, isBooked]; rfl, ?_⟩
              rintro after same
              cases same
              rcases describes.commit isBooked with ⟨qos, more, committed⟩
              refine ⟨⟨rfl, List.prefix_append _ _⟩, _, _, _, _,
                committed.emits, committed.carried,
                committed.numbered, fun _ => committed.unbooked rfl, ?_,
                ?_⟩
              · intro other impossible
                cases impossible
              · intro push same
                rw [Stage.commit, isRunning] at same
                cases same

/-- A batch of 19 bytes has room for a frame or for a first fragment. -/
theorem takes_of_wide (wide : Wide stage) {push : Push}
    (bounded : push.msg.len < 2 ^ 64) {batch : WriteBatch}
    (fresh : batch.Fresh stage.batchSize) :
    stage.takes push batch = true := by
  have header := WriteBatch.fragmentWLen_le (.new push.qos
    (stage.pool.gen push.qos.congestionControl).next)
      stage.pool.fragId.next
  have length := vleLen_le bounded
  have room := wide.1
  rw [Stage.takes, Bool.or_eq_true, decide_eq_true_iff, decide_eq_true_iff,
    fresh.remaining_eq]
  right
  omega

/-- A stage with batches of 19 bytes has room for what it writes. -/
theorem Described.roomy (described : Described p stage)
    (wide : Wide stage) : stage.roomy = true := by
  rcases described with ⟨sent, counters, messages, unfinished, describes⟩
  unfold Stage.roomy
  cases isRunning : stage.running with
  | none => rfl
  | some push =>
      rcases describes.running push isRunning with ⟨_, bounded, goesOn⟩
      unfold Continues at goesOn
      dsimp only
      cases point : push.point with
      | fragments seqNum fragId reader =>
          rw [point] at goesOn
          have header := WriteBatch.fragmentWLen_le
            (.new push.qos seqNum) fragId
          have room := wide.1
          rw [decide_eq_true_iff,
            (refilled_fresh goesOn.1 push.qos stage.dropFlag).1.remaining_eq]
          omega
      | fresh =>
          rw [point] at goesOn
          exact takes_of_wide wide bounded
            (refilled_fresh goesOn push.qos none).1
      | start =>
          rw [Bool.or_eq_true, Bool.not_eq_true']
          cases isBooked : stage.booked with
          | none =>
              right
              exact takes_of_wide wide bounded
                (refilled_fresh isBooked push.qos none).1
          | some batch =>
              left
              rw [Stage.batch, isBooked]
              exact describes.filled wide.2 isBooked

/-- Every step succeeds or is impossible, and keeps the description. -/
theorem step_described (described : Described p stage) (wide : Wide stage)
    {action : Stage.Action} (at_ : action.At p) :
    ∃ result, stage.step action = .ok result ∧
      ∀ after, result = some after →
        stage.Extends after ∧ Described p after :=
  step_described_of_roomy described wide.2 at_
    fun _ _ => described.roomy wide

end Tx
end Thubo
