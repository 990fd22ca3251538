import Thubo.Pipeline.Inbox
import Thubo.Pipeline.RoundTrip

/-!
# What every batch on the wire looks like

Whatever pushes, flushes and pulls a run is made of, the batches handed out
have their true length in the first two bytes and decode with nothing left
over, and the batches of a priority and congestion control are numbered
consecutively in the order in which they were committed.
-/

namespace Thubo
namespace Tx

/-! ## Well-formed batches -/

/-- Bytes that are messages one after another, with nothing left over. -/
inductive WholeMessages : List UInt8 → List (List UInt8) → Prop
  | nil : WholeMessages [] []
  | cons {rest after message : List UInt8} {messages : List (List UInt8)}
      (parsed : Parser.payload rest = some (message, after))
      (later : WholeMessages after messages) :
      WholeMessages rest (message :: messages)

theorem wholeMessages_flatMap {messages : List (List UInt8)}
    (bounded : ∀ message ∈ messages, message.length < 2 ^ 64) :
    WholeMessages (messages.flatMap encodeMessage) messages := by
  induction messages with
  | nil => exact .nil
  | cons message messages hypothesis =>
      rw [List.forall_mem_cons] at bounded
      rw [List.flatMap_cons]
      exact .cons (Rx.payload_encodeMessage bounded.1 _)
        (hypothesis bounded.2)

/--
A frame header with at least one whole message, or a fragment header with
its payload.
-/
def Decodes (content : List UInt8) : Prop :=
  match Parser.message content with
  | some (⟨_, .frame _⟩, rest) =>
      ∃ messages, messages ≠ [] ∧ WholeMessages rest messages
  | some (⟨_, .fragment f⟩, _) => ∃ kind, f.kind = .ok kind
  | none => False

/-- A batch of a pipeline of the given batch size, as it goes on the wire. -/
structure Framed (batchSize : Nat) (batch : WriteBatch) : Prop where
  length_eq : ∃ low high, batch.image = low :: high :: batch.content ∧
    Rx.fromLeBytes low high = batch.content.length
  positive : 1 ≤ batch.content.length
  bounded : batch.content.length ≤ batchSize
  decodes : Decodes batch.content

/-- The header that a batch starts with. -/
def header (batch : WriteBatch) : Option MessageHeader :=
  (Parser.message batch.content).map fun (message, _) => message.header

/-- The sequence numbers of one congestion control, in order. -/
def numbers (batches : List WriteBatch) (cc : CongestionControl) :
    List SeqNum :=
  ((batches.filterMap header).filter fun header =>
    header.qos.congestionControl = cc).map MessageHeader.seqNum

/-! ## What is sent is well formed -/

/-- The header of what is sent. -/
def Sent.header : Sent → MessageHeader
  | .frame qos seqNum _ => .new qos seqNum
  | .fragment qos seqNum _ _ _ => .new qos seqNum

theorem message_image_frame (qos : QoS) (seqNum : SeqNum)
    (messages : List (List UInt8)) :
    Parser.message (Sent.frame qos seqNum messages).image =
      some (⟨.new qos seqNum, .frame .new⟩,
        messages.flatMap encodeMessage) :=
  Parser.message_bytes ⟨.new qos seqNum, .frame .new⟩
    FrameHeader.new_wellFormed _

theorem message_image_fragment (qos : QoS) (seqNum fragId : SeqNum)
    (kind : FragmentKind) (payload : List UInt8) :
    Parser.message (Sent.fragment qos seqNum fragId kind payload).image =
      some (⟨.new qos seqNum, .fragment (.new kind fragId)⟩, payload) :=
  Parser.message_bytes ⟨.new qos seqNum, .fragment (.new kind fragId)⟩
    (FragmentHeader.new_wellFormed kind fragId) _

theorem header_of_content {batch : WriteBatch} {sent : Sent}
    (content : batch.content = sent.image) :
    header batch = some sent.header := by
  rw [header, content]
  cases sent with
  | frame qos seqNum messages =>
      rw [message_image_frame]
      rfl
  | fragment qos seqNum fragId kind payload =>
      rw [message_image_fragment]
      rfl

theorem decodes_fragment (qos : QoS) (seqNum fragId : SeqNum)
    (kind : FragmentKind) (payload : List UInt8) :
    Decodes (Sent.fragment qos seqNum fragId kind payload).image := by
  rw [Decodes, message_image_fragment]
  exact ⟨kind, FragmentHeader.kind_new kind fragId⟩

variable {p : Priority} {counters after : Counters}
variable {unfinished next : Option Partial} {batch : Sent}
variable {sent : List Sent} {messages more : List (List UInt8)}

theorem Emit.decodes
    (emit : Emit p counters unfinished batch after more next) :
    Decodes batch.image := by
  cases emit with
  | frame qos more priority nonempty bounded =>
      rw [Decodes, message_image_frame]
      exact ⟨more, nonempty, wholeMessages_flatMap bounded⟩
  | first => exact decodes_fragment ..
  | more => exact decodes_fragment ..
  | last => exact decodes_fragment ..

theorem Emits.decodes
    (emits : Emits p sent counters messages unfinished) :
    ∀ batch ∈ sent, Decodes batch.image := by
  induction emits with
  | nil =>
      intro batch member
      cases member
  | snoc before last hypothesis =>
      intro batch member
      rcases List.mem_append.1 member with earlier | here
      · exact hypothesis batch earlier
      · cases List.mem_singleton.1 here
        exact last.decodes

/-- A batch takes the next number of its congestion control. -/
theorem Emit.header_eq
    (emit : Emit p counters unfinished batch after more next) :
    batch.header = .new batch.qos (counters.number batch.control) := by
  cases emit <;> rfl

/-- The numbers of a congestion control count up from one. -/
theorem Emits.numbers_eq
    (emits : Emits p sent counters messages unfinished)
    (cc : CongestionControl) :
    ((sent.map Sent.header).filter fun header =>
        header.qos.congestionControl = cc).map MessageHeader.seqNum =
      (List.range (counters.sent cc)).map fun count =>
        SeqNum.new (count + 1) := by
  induction emits with
  | nil => rfl
  | @snoc sent counters after _ _ _ _ batch before last hypothesis =>
      have grown := last.sent_eq cc
      rw [List.map_append, List.filter_append, List.map_append, hypothesis,
        List.map_singleton, last.header_eq]
      by_cases own : cc = batch.control
      · rw [if_pos own] at grown
        rw [grown, List.range_succ, List.map_append]
        subst own
        rw [List.filter_cons_of_pos (by simp [Sent.control]),
          List.filter_nil]
        rfl
      · rw [if_neg own] at grown
        have other : ¬ batch.qos.congestionControl = cc :=
          fun same => own same.symm
        simp [grown, other]

/-! ## What is handed out -/

/-- A batch with its length filled in is well formed on the wire. -/
theorem framed_writeLen {batchSize : Nat} (most : batchSize ≤ 65535)
    {batch : WriteBatch} {sent : Sent}
    (carries : Carries batchSize batch sent)
    (decodes : Decodes sent.image) : Framed batchSize batch.writeLen := by
  have bounded := carries.length_le
  have positive := sent.length_image_pos
  have sized : Sized batch := by
    refine ⟨carries.headed, ?_, ?_⟩ <;> rw [carries.content_eq] <;> omega
  have same := content_writeLen batch
  refine ⟨?_, ?_, ?_, ?_⟩
  · rw [same]
    exact image_writeLen sized
  · rwa [same, carries.content_eq]
  · rwa [same, carries.content_eq]
  · rwa [same, carries.content_eq]

/-- The batches of a described stage are well formed. -/
theorem Described.framed {stage : Stage} (described : Described p stage)
    (wide : Wide stage) {batch : WriteBatch}
    (member : batch ∈ stage.committed) :
    Framed stage.batchSize batch.writeLen := by
  rcases described with ⟨sent, counters, messages, unfinished, describes⟩
  rcases List.append_of_mem member with ⟨front, back, split⟩
  have carried := describes.carried
  rw [split] at carried
  rcases Merge.forall₂_split carried with ⟨_, s, _, whole, carries, _⟩
  refine framed_writeLen wide.2 carries (describes.emits.decodes s ?_)
  rw [whole]
  simp

/-- The headers of the committed batches are those of what is sent. -/
theorem headers_eq {batchSize : Nat} {batches : List WriteBatch}
    (carried : List.Forall₂ (Carries batchSize) batches sent) :
    batches.filterMap header = sent.map Sent.header := by
  induction carried with
  | nil => rfl
  | cons carries _ hypothesis =>
      rw [List.filterMap_cons_some (header_of_content carries.content_eq),
        hypothesis, List.map_cons]

/-- The committed batches of a described stage are numbered from one. -/
theorem Described.numbered {stage : Stage} (described : Described p stage)
    (cc : CongestionControl) :
    ∃ count, numbers stage.committed cc =
      (List.range count).map fun earlier => SeqNum.new (earlier + 1) := by
  rcases described with ⟨sent, counters, messages, unfinished, describes⟩
  refine ⟨counters.sent cc, ?_⟩
  rw [numbers, headers_eq describes.carried]
  exact describes.emits.numbers_eq cc

namespace Outgoing

/-- A move keeps the batch size of every priority. -/
theorem move_batchSize {state after : Outgoing} (ordered : state.Ordered)
    {next : Move} (sized : next.Sized)
    (moved : state.move next = .ok after) (q : Priority) :
    (after.stage q).batchSize = (state.stage q).batchSize := by
  have atStage : ∀ (p : Priority) (action : Stage.Action), action.At p →
      state.atStage p action = .ok after →
        (after.stage q).batchSize = (state.stage q).batchSize := by
    intro p action at_ ran
    rcases step_described (ordered.described p) (ordered.wide p) at_ with
      ⟨result, run, kept⟩
    simp only [Outgoing.atStage, run, ok_bind] at ran
    cases result with
    | none =>
        cases ran
        rfl
    | some stage =>
        cases ran
        simp only [Priority.update_apply]
        split
        · rename_i own
          rw [own]
          exact (kept stage rfl).1.1
        · rfl
  have take : ∀ (p : Priority) (use : WriteBatch → List WriteBatch),
      .ok (state.take p use) = (.ok after : Except Fault Outgoing) →
        (after.stage q).batchSize = (state.stage q).batchSize := by
    intro p use ran
    cases ran
    unfold Outgoing.take
    split <;> rfl
  cases next with
  | push msg qos =>
      exact atStage qos.priority (.begin msg qos) ⟨rfl, sized⟩ moved
  | resume p flush => exact atStage p (.resume flush) trivial moved
  | abandon p error => exact atStage p (.abandon error) trivial moved
  | flush p => exact atStage p .flush trivial moved
  | handOut p => exact take p _ moved
  | discard p => exact take p _ moved

theorem run_batchSize {state after : Outgoing} (ordered : state.Ordered)
    {moves : List Move} (sized : ∀ next ∈ moves, next.Sized)
    (ran : run state moves = .ok after) (q : Priority) :
    (after.stage q).batchSize = (state.stage q).batchSize := by
  induction moves generalizing state with
  | nil =>
      cases ran
      rfl
  | cons next moves hypothesis =>
      rw [List.forall_mem_cons] at sized
      rcases move_ordered ordered sized.1 with ⟨middle, first, kept, _⟩
      rw [run, first, ok_bind] at ran
      rw [hypothesis kept sized.2 ran,
        move_batchSize ordered sized.1 first q]

/--
In every run with a batch size from 19 to 65535, the batches handed out are
well formed and the committed batches are numbered consecutively.
-/
theorem out_framed {batchSize : Nat} (least : 19 ≤ batchSize)
    (most : batchSize ≤ 65535) (moves : List Move)
    (sized : ∀ next ∈ moves, next.Sized) :
    ∃ after, run (.new batchSize) moves = .ok after ∧
      (∀ batch ∈ after.out, Framed batchSize batch) ∧
      ∀ p cc, ∃ count, numbers (after.stage p).committed cc =
        (List.range count).map fun earlier => SeqNum.new (earlier + 1) := by
  have start := ordered_new least most
  rcases run_ordered start sized with ⟨after, ran, ordered, _⟩
  refine ⟨after, ran, ?_, fun p cc => (ordered.described p).numbered cc⟩
  intro batch member
  have own : batch ∈ after.outAt batch.qos.priority := by
    simp [outAt, member]
  have taken := (ordered.sublist batch.qos.priority).subset own
  rcases List.mem_map.1 taken with ⟨original, origin, rfl⟩
  have framed := (ordered.described _).framed (ordered.wide _)
    (List.mem_of_mem_take origin)
  rwa [run_batchSize start sized ran] at framed

/-- A frame of two messages, flushed by the puller and handed out. -/
theorem out_framed_two :
    ∃ after, run (.new 19)
        [.push (Bytes.single (Chunk.ofBuf [7])) .DEFAULT,
          .resume .medium false,
          .push (Bytes.single (Chunk.ofBuf [8])) .DEFAULT,
          .resume .medium false,
          .flush .medium, .handOut .medium] = .ok after ∧
      (∀ batch ∈ after.out, Framed 19 batch) ∧
      ∀ p cc, ∃ count, numbers (after.stage p).committed cc =
        (List.range count).map fun earlier => SeqNum.new (earlier + 1) :=
  out_framed (Nat.le_refl 19) (by decide) _ (by decide)

end Outgoing
end Tx
end Thubo
