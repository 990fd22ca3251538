import Thubo.Pipeline.Rx

/-!
# Reassembled messages and the fragments they come from

A run of received batches is recorded as a trace of fragment arrivals.  A
reassembled message is assembled when the trace of its stream ends with an
accepted first fragment, further accepted fragments, and an accepted last
one, numbered consecutively under one identifier, whose payloads it holds.

The buffers keep their expectations when they are cleared, taken or fresh, so
the code alone does not guarantee this; the guard states the missing check.
-/

namespace Thubo
namespace Rx

/-! ## Arrivals -/

/-- A fragment as it arrives from the wire. -/
structure Arrival where
  stream : Stream
  seqNum : SeqNum
  fragId : SeqNum
  kind : FragmentKind
  payload : List UInt8
deriving DecidableEq, Repr

/-- The fragment in the bytes of a batch. -/
def arrival (content : List UInt8) : Option Arrival :=
  match Parser.message content with
  | some (⟨header, .fragment f⟩, payload) =>
      match f.kind with
      | .ok kind =>
          some ⟨stream header.qos, header.seqNum, f.fragId, kind, payload⟩
      | .error _ => none
  | _ => none

/-- An arrival together with how push ended on it. -/
structure Entry where
  arrival : Arrival
  outcome : Decoded
deriving DecidableEq, Repr

namespace Entry

/-- Push did not reject the fragment. -/
def Accepted (entry : Entry) : Prop :=
  match entry.outcome with
  | .reject _ => False
  | _ => True

instance (entry : Entry) : Decidable entry.Accepted := by
  unfold Accepted
  split <;> infer_instance

/-- The fragment was accepted and leaves its message unfinished. -/
def Opens (entry : Entry) : Prop :=
  entry.Accepted ∧ entry.arrival.kind ≠ .last

instance (entry : Entry) : Decidable entry.Opens := by
  unfold Opens
  infer_instance

end Entry

/-- The entries of one stream. -/
def history (trace : List Entry) (stream : Stream) : List Entry :=
  trace.filter fun entry => entry.arrival.stream = stream

/-- The last fragment of the stream was accepted and was not a last one. -/
def Open (trace : List Entry) (stream : Stream) : Prop :=
  match (history trace stream).getLast? with
  | some entry => entry.Opens
  | none => False

instance (trace : List Entry) (stream : Stream) :
    Decidable (Open trace stream) := by
  unfold Open
  split <;> infer_instance

/-! ## Assembled messages -/

/-- Accepted fragments numbered consecutively under one identifier. -/
inductive Chain (fragId : SeqNum) : List Entry → SeqNum → Prop
  | first (entry : Entry)
      (kind : entry.arrival.kind = .first)
      (sameId : entry.arrival.fragId = fragId)
      (accepted : entry.Accepted) :
      Chain fragId [entry] entry.arrival.seqNum.next
  | more {entries : List Entry} (entry : Entry) {expected : SeqNum}
      (chain : Chain fragId entries expected)
      (kind : entry.arrival.kind = .more)
      (consecutive : entry.arrival.seqNum = expected)
      (sameId : entry.arrival.fragId = fragId)
      (accepted : entry.Accepted) :
      Chain fragId (entries ++ [entry]) entry.arrival.seqNum.next

/-- The payloads of entries, in order. -/
def payloads (entries : List Entry) : List UInt8 :=
  entries.flatMap fun entry => entry.arrival.payload

/--
The history ends with a first fragment, further fragments and a last one,
all accepted, consecutive and under one identifier, and `content` is the
concatenation of their payloads.
-/
def Assembled (history : List Entry) (content : List UInt8) : Prop :=
  ∃ before chain last fragId expected,
    history = before ++ (chain ++ [last]) ∧
    Chain fragId chain expected ∧
    last.arrival.kind = .last ∧ last.arrival.seqNum = expected ∧
    last.arrival.fragId = fragId ∧ last.Accepted ∧
    content = payloads (chain ++ [last])

/-- Every message delivered from fragments in the trace is assembled. -/
def AllAssembled (trace : List Entry) : Prop :=
  ∀ before entry after batch, trace = before ++ entry :: after →
    entry.outcome = .deliver batch →
      Assembled (history (before ++ [entry]) entry.arrival.stream)
        batch.bytes.toVec

/-! ## Runs of received batches -/

/-- The buffers and the trace of fragments received so far. -/
structure Reception where
  defrag : Defragmentation
  trace : List Entry

namespace Reception

/-- Fresh buffers that have received nothing. -/
def new : Reception :=
  ⟨.new, []⟩

/-- Receive one batch. -/
def receive (fragMaxSize : Nat) (state : Reception) (bytes : Bytes) :
    Except Fault Reception := do
  let (outcome, defrag) ← decodeBatch state.defrag bytes fragMaxSize
  match arrival bytes.toVec with
  | none => return { state with defrag := defrag }
  | some arrival =>
      return ⟨defrag, state.trace ++ [⟨arrival, outcome⟩]⟩

/-- Receive batches one after another. -/
def receiveAll (fragMaxSize : Nat) :
    Reception → List Bytes → Except Fault Reception
  | state, [] => .ok state
  | state, bytes :: rest => do
      let state ← state.receive fragMaxSize bytes
      receiveAll fragMaxSize state rest

end Reception

/-- The checks of `extend` let the fragment through. -/
def DefragBuffer.Expects (dbuf : DefragBuffer) (arrival : Arrival)
    (capacity : Nat) : Prop :=
  arrival.seqNum = dbuf.seqNum ∧ arrival.fragId = dbuf.fragId ∧
    dbuf.buffer.len + arrival.payload.length ≤ capacity

instance (dbuf : DefragBuffer) (arrival : Arrival) (capacity : Nat) :
    Decidable (dbuf.Expects arrival capacity) := by
  unfold DefragBuffer.Expects
  infer_instance

/--
A fragment that continues a message and meets the expectation of its buffer
arrives only while a message of its stream is open.
-/
def Guarded (fragMaxSize : Nat) (state : Reception) (bytes : Bytes) :
    Prop :=
  match arrival bytes.toVec with
  | none => True
  | some arrived =>
      arrived.kind ≠ .first →
        (state.defrag.get arrived.stream).Expects arrived fragMaxSize →
          Open state.trace arrived.stream

instance (fragMaxSize : Nat) (state : Reception) (bytes : Bytes) :
    Decidable (Guarded fragMaxSize state bytes) := by
  unfold Guarded
  split <;> infer_instance

/-- Every batch of a run is guarded in the state it is received in. -/
def GuardedRun (fragMaxSize : Nat) : Reception → List Bytes → Prop
  | _, [] => True
  | state, bytes :: rest =>
      Guarded fragMaxSize state bytes ∧
        match state.receive fragMaxSize bytes with
        | .ok after => GuardedRun fragMaxSize after rest
        | .error _ => True

instance decidableGuardedRun (fragMaxSize : Nat) :
    (state : Reception) → (batches : List Bytes) →
      Decidable (GuardedRun fragMaxSize state batches)
  | _, [] => .isTrue trivial
  | state, bytes :: rest =>
      match received : state.receive fragMaxSize bytes with
      | .ok after =>
          have := decidableGuardedRun fragMaxSize after rest
          decidable_of_iff
            (Guarded fragMaxSize state bytes ∧
              GuardedRun fragMaxSize after rest)
            (by rw [GuardedRun, received])
      | .error _ =>
          decidable_of_iff (Guarded fragMaxSize state bytes)
            (by rw [GuardedRun, received]; simp)

/-! ## Histories -/

theorem history_append_same (trace : List Entry) (entry : Entry) :
    history (trace ++ [entry]) entry.arrival.stream =
      history trace entry.arrival.stream ++ [entry] := by
  simp [history]

theorem history_append_other (trace : List Entry) (entry : Entry)
    {stream : Stream} (distinct : stream ≠ entry.arrival.stream) :
    history (trace ++ [entry]) stream = history trace stream := by
  have other : ¬ entry.arrival.stream = stream := fun same =>
    distinct same.symm
  simp [history, other]

theorem open_append_same (trace : List Entry) (entry : Entry) :
    Open (trace ++ [entry]) entry.arrival.stream ↔ entry.Opens := by
  simp [Open, history_append_same]

theorem open_append_other (trace : List Entry) (entry : Entry)
    {stream : Stream} (distinct : stream ≠ entry.arrival.stream) :
    Open (trace ++ [entry]) stream ↔ Open trace stream := by
  rw [Open, Open, history_append_other trace entry distinct]

@[simp]
theorem payloads_append (left right : List Entry) :
    payloads (left ++ right) = payloads left ++ payloads right :=
  List.flatMap_append

@[simp]
theorem payloads_singleton (entry : Entry) :
    payloads [entry] = entry.arrival.payload := by
  simp [payloads]

theorem length_history_le (trace : List Entry) (stream : Stream) :
    (history trace stream).length ≤ trace.length :=
  List.length_filter_le _ _

/-- An assembled message takes at least two fragments. -/
theorem Assembled.two_le {past : List Entry} {content : List UInt8}
    (assembled : Assembled past content) : 2 ≤ past.length := by
  obtain ⟨before, chain, last, fragId, expected, rfl, linked, _⟩ := assembled
  have nonempty : 0 < chain.length := by
    cases linked <;> simp
  simp only [List.length_append, List.length_singleton]
  omega

/-! ## What a buffer does with a fragment -/

/-- `extend` accepts exactly the fragments the buffer expects. -/
theorem DefragBuffer.extend_cases (dbuf : DefragBuffer) (arrival : Arrival)
    {view : Bytes} (content : view.toVec = arrival.payload)
    (capacity : Nat) :
    (dbuf.Expects arrival capacity ∧
      dbuf.extend arrival.seqNum arrival.fragId view capacity =
        .ok ⟨dbuf.seqNum.next, dbuf.fragId, dbuf.buffer.extend view⟩) ∨
    (¬ dbuf.Expects arrival capacity ∧ ∃ error,
      dbuf.extend arrival.seqNum arrival.fragId view capacity =
        .error error) := by
  have length : view.len = arrival.payload.length := by
    rw [← content, Bytes.length_toVec]
  unfold extend Expects
  rw [length]
  by_cases sameSeq : arrival.seqNum = dbuf.seqNum
  · by_cases sameId : arrival.fragId = dbuf.fragId
    · by_cases full :
          dbuf.buffer.len + arrival.payload.length > capacity
      · right
        exact ⟨fun expects => by omega, .capacityLimit,
          by simp [sameSeq, sameId, full]⟩
      · left
        exact ⟨⟨sameSeq, sameId, by omega⟩, by simp [sameSeq, sameId, full]⟩
    · right
      exact ⟨fun expects => sameId expects.2.1, .invalidFragId,
        by simp [sameSeq, sameId]⟩
  · right
    exact ⟨fun expects => sameSeq expects.1, .invalidSeqNum,
      by simp [sameSeq]⟩

/-- How a stream's buffer and outcome change when a fragment arrives. -/
inductive Accepts (capacity : Nat) (dbuf : DefragBuffer)
    (arrival : Arrival) : Decoded → DefragBuffer → Prop
  | started {view : Bytes} (kind : arrival.kind = .first)
      (content : view.toVec = arrival.payload)
      (fits : arrival.payload.length ≤ capacity) :
      Accepts capacity dbuf arrival .kept
        ⟨arrival.seqNum.next, arrival.fragId, Bytes.new.extend view⟩
  | refused {error : SendError} (kind : arrival.kind = .first)
      (full : capacity < arrival.payload.length) :
      Accepts capacity dbuf arrival (.reject error)
        ⟨arrival.seqNum, arrival.fragId, Bytes.new⟩
  | continued {view : Bytes} (kind : arrival.kind = .more)
      (content : view.toVec = arrival.payload)
      (expects : dbuf.Expects arrival capacity) :
      Accepts capacity dbuf arrival .kept
        ⟨dbuf.seqNum.next, dbuf.fragId, dbuf.buffer.extend view⟩
  | cleared {error : SendError} (kind : arrival.kind = .more)
      (unexpected : ¬ dbuf.Expects arrival capacity) :
      Accepts capacity dbuf arrival (.reject error) dbuf.clear
  | finished {view : Bytes} {qos : QoS} (kind : arrival.kind = .last)
      (sameStream : stream qos = arrival.stream)
      (content : view.toVec = arrival.payload)
      (expects : dbuf.Expects arrival capacity) :
      Accepts capacity dbuf arrival
        (.deliver ⟨dbuf.buffer.extend view, qos, .zero⟩)
        ⟨dbuf.seqNum.next, dbuf.fragId, Bytes.new⟩
  | ignored {error : SendError} (kind : arrival.kind = .last)
      (unexpected : ¬ dbuf.Expects arrival capacity) :
      Accepts capacity dbuf arrival (.reject error) dbuf

/-- Adding a fragment changes only the buffer of its stream. -/
theorem acceptFragment_accepts (defrag : Defragmentation)
    (header : MessageHeader) (arrived : Arrival)
    (stream_eq : arrived.stream = stream header.qos)
    (seqNum_eq : arrived.seqNum = header.seqNum) {view : Bytes}
    (content : view.toVec = arrived.payload) (capacity : Nat) :
    ∃ outcome dbuf,
      acceptFragment defrag header arrived.fragId arrived.kind (some view)
          capacity = (outcome, defrag.set arrived.stream dbuf) ∧
        Accepts capacity (defrag.get arrived.stream) arrived outcome
          dbuf := by
  obtain ⟨s, n, fragId, kind, payload⟩ := arrived
  dsimp only at stream_eq seqNum_eq content ⊢
  subst stream_eq
  subst seqNum_eq
  unfold acceptFragment
  cases kind with
  | first =>
      have split := DefragBuffer.extend_cases
        (((defrag.get (stream header.qos)).clear).sync header.seqNum fragId)
        ⟨stream header.qos, header.seqNum, fragId, .first, payload⟩ content
        capacity
      rcases split with ⟨expects, extended⟩ | ⟨unexpected, error, extended⟩
      · dsimp only at extended ⊢
        rw [extended]
        refine ⟨_, _, rfl, .started rfl content ?_⟩
        have fits := expects.2.2
        change 0 + payload.length ≤ capacity at fits
        rwa [Nat.zero_add] at fits
      · dsimp only at extended ⊢
        rw [extended]
        refine ⟨_, _, rfl, .refused rfl ?_⟩
        apply Nat.lt_of_not_le
        intro fits
        apply unexpected
        refine ⟨rfl, rfl, ?_⟩
        change 0 + payload.length ≤ capacity
        rwa [Nat.zero_add]
  | more =>
      have split := DefragBuffer.extend_cases
        (defrag.get (stream header.qos))
        ⟨stream header.qos, header.seqNum, fragId, .more, payload⟩ content
        capacity
      rcases split with ⟨expects, extended⟩ | ⟨unexpected, error, extended⟩
      · dsimp only at extended ⊢
        rw [extended]
        exact ⟨_, _, rfl, .continued rfl content expects⟩
      · dsimp only at extended ⊢
        rw [extended]
        exact ⟨_, _, rfl, .cleared rfl unexpected⟩
  | last =>
      have split := DefragBuffer.extend_cases
        (defrag.get (stream header.qos))
        ⟨stream header.qos, header.seqNum, fragId, .last, payload⟩ content
        capacity
      rcases split with ⟨expects, extended⟩ | ⟨unexpected, error, extended⟩
      · dsimp only at extended ⊢
        rw [extended]
        exact ⟨_, _, rfl, .finished rfl rfl content expects⟩
      · dsimp only at extended ⊢
        rw [extended]
        exact ⟨_, defrag.get (stream header.qos), by
          rw [Defragmentation.set_get], .ignored rfl unexpected⟩

/-- A batch that holds a fragment is decoded into its arrival. -/
theorem decodeBatch_arrival {bytes : Bytes} (solid : bytes.NoEmptyChunk)
    {arrived : Arrival} (isArrival : arrival bytes.toVec = some arrived)
    (defrag : Defragmentation) (fragMaxSize : Nat) :
    ∃ outcome dbuf,
      decodeBatch defrag bytes fragMaxSize =
          .ok (outcome, defrag.set arrived.stream dbuf) ∧
        Accepts fragMaxSize (defrag.get arrived.stream) arrived outcome
          dbuf := by
  unfold arrival at isArrival
  split at isArrival
  · rename_i header f payload parsed
    split at isArrival
    · rename_i kind kindOk
      cases isArrival
      obtain ⟨view, holds, run⟩ :=
        decodeBatch_fragment solid parsed defrag fragMaxSize
      obtain ⟨outcome, dbuf, accepted, accepts⟩ :=
        acceptFragment_accepts defrag header
          ⟨stream header.qos, header.seqNum, f.fragId, kind, payload⟩
          rfl rfl holds.1 fragMaxSize
      refine ⟨outcome, dbuf, ?_, accepts⟩
      rw [run, kindOk, ok_bind, accepted]
      rfl
    · cases isArrival
  · cases isArrival

/-- A batch that holds no fragment leaves the buffers alone. -/
theorem decodeBatch_no_arrival {bytes : Bytes}
    (solid : bytes.NoEmptyChunk) (noArrival : arrival bytes.toVec = none)
    {defrag after : Defragmentation} {fragMaxSize : Nat}
    {outcome : Decoded}
    (run : decodeBatch defrag bytes fragMaxSize = .ok (outcome, after)) :
    after = defrag := by
  cases parsed : Parser.message bytes.toVec with
  | none =>
      rw [decodeBatch_invalid solid parsed] at run
      cases run
      rfl
  | some result =>
      obtain ⟨⟨header, body⟩, rest⟩ := result
      cases body with
      | frame f =>
          obtain ⟨batch, _, ran⟩ :=
            decodeBatch_frame solid parsed defrag fragMaxSize
          rw [ran] at run
          cases run
          rfl
      | fragment f =>
          obtain ⟨view, _, ran⟩ :=
            decodeBatch_fragment solid parsed defrag fragMaxSize
          unfold arrival at noArrival
          rw [parsed] at noArrival
          cases kind : f.kind with
          | ok kind => simp [kind] at noArrival
          | error fault =>
              rw [ran, kind] at run
              cases run

/-! ## The invariant of guarded runs -/

/--
While a message of a stream is open, its buffer holds the payloads of the
chain that ends the stream's history and expects the next fragment of it.
-/
def Tracks (state : Reception) : Prop :=
  ∀ stream, Open state.trace stream →
    ∃ before chain,
      history state.trace stream = before ++ chain ∧
      Chain (state.defrag.get stream).fragId chain
        (state.defrag.get stream).seqNum ∧
      (state.defrag.get stream).buffer.toVec = payloads chain

theorem tracks_new : Tracks Reception.new := by
  intro stream opened
  cases opened

theorem AllAssembled.append {trace : List Entry} {entry : Entry}
    (assembled : AllAssembled trace)
    (last : ∀ batch, entry.outcome = .deliver batch →
      Assembled (history (trace ++ [entry]) entry.arrival.stream)
        batch.bytes.toVec) :
    AllAssembled (trace ++ [entry]) := by
  intro before other after batch split delivered
  rcases List.eq_nil_or_concat after with rfl | ⟨init, final, rfl⟩
  · obtain ⟨rfl, single⟩ := List.append_inj' split rfl
    cases single
    exact last batch delivered
  · rw [List.concat_eq_append, ← List.cons_append,
      ← List.append_assoc] at split
    obtain ⟨rfl, _⟩ := List.append_inj' split rfl
    exact assembled before other init batch rfl delivered

/-- A guarded arrival keeps the invariant and delivers assembled messages. -/
theorem accepts_tracks {state : Reception} (tracks : Tracks state)
    {arrived : Arrival} {fragMaxSize : Nat}
    (guarded : arrived.kind ≠ .first →
      (state.defrag.get arrived.stream).Expects arrived fragMaxSize →
        Open state.trace arrived.stream)
    {outcome : Decoded} {dbuf : DefragBuffer}
    (accepts : Accepts fragMaxSize (state.defrag.get arrived.stream)
      arrived outcome dbuf) :
    Tracks ⟨state.defrag.set arrived.stream dbuf,
        state.trace ++ [⟨arrived, outcome⟩]⟩ ∧
      ∀ batch, outcome = .deliver batch →
        Assembled
          (history (state.trace ++ [⟨arrived, outcome⟩]) arrived.stream)
          batch.bytes.toVec := by
  have grown := history_append_same state.trace ⟨arrived, outcome⟩
  dsimp only at grown
  have elsewhere : (Open (state.trace ++ [⟨arrived, outcome⟩])
        arrived.stream →
      ∃ before chain,
        history (state.trace ++ [⟨arrived, outcome⟩]) arrived.stream =
          before ++ chain ∧
        Chain dbuf.fragId chain dbuf.seqNum ∧
        dbuf.buffer.toVec = payloads chain) →
      Tracks ⟨state.defrag.set arrived.stream dbuf,
        state.trace ++ [⟨arrived, outcome⟩]⟩ := by
    intro here stream opened
    dsimp only at opened ⊢
    by_cases same : stream = arrived.stream
    · subst same
      rw [Defragmentation.get_set, if_pos rfl]
      exact here opened
    · rw [open_append_other _ ⟨arrived, outcome⟩ same] at opened
      rw [Defragmentation.get_set, if_neg same,
        history_append_other _ ⟨arrived, outcome⟩ same]
      exact tracks stream opened
  have closed : ¬ (Entry.mk arrived outcome).Opens →
      Tracks ⟨state.defrag.set arrived.stream dbuf,
        state.trace ++ [⟨arrived, outcome⟩]⟩ := by
    intro notOpen
    apply elsewhere
    intro opened
    exact absurd ((open_append_same _ ⟨arrived, outcome⟩).1 opened) notOpen
  cases accepts with
  | started kind content =>
      refine ⟨elsewhere fun _ => ?_, fun batch impossible => by
        cases impossible⟩
      refine ⟨history state.trace arrived.stream, [⟨arrived, .kept⟩], grown,
        Chain.first ⟨arrived, .kept⟩ kind rfl trivial, ?_⟩
      rw [payloads_singleton, Bytes.toVec_extend, Bytes.toVec_new,
        List.nil_append]
      exact content
  | refused kind full =>
      exact ⟨closed fun opens => opens.1, fun batch impossible => by
        cases impossible⟩
  | continued kind content expects =>
      obtain ⟨before, chain, past, linked, buffered⟩ :=
        tracks _ (guarded (by rw [kind]; decide) expects)
      refine ⟨elsewhere fun _ => ?_, fun batch impossible => by
        cases impossible⟩
      refine ⟨before, chain ++ [⟨arrived, .kept⟩], ?_, ?_, ?_⟩
      · rw [grown, past, List.append_assoc]
      · have next := Chain.more ⟨arrived, .kept⟩ linked kind
          expects.1 expects.2.1 trivial
        dsimp only at next
        rwa [expects.1] at next
      · rw [payloads_append, payloads_singleton, Bytes.toVec_extend,
          buffered, content]
  | cleared kind unexpected =>
      exact ⟨closed fun opens => opens.1, fun batch impossible => by
        cases impossible⟩
  | @finished view qos kind _ content expects =>
      obtain ⟨before, chain, past, linked, buffered⟩ :=
        tracks _ (guarded (by rw [kind]; decide) expects)
      refine ⟨closed fun opens => opens.2 kind, ?_⟩
      rintro batch same
      cases same
      refine ⟨before, chain,
        ⟨arrived, .deliver
          ⟨(state.defrag.get arrived.stream).buffer.extend view, qos,
            .zero⟩⟩, _, _, ?_, linked, kind, expects.1, expects.2.1,
        trivial, ?_⟩
      · rw [grown, past, List.append_assoc]
      · dsimp only
        rw [payloads_append, payloads_singleton, Bytes.toVec_extend,
          buffered, content]
  | ignored kind unexpected =>
      exact ⟨closed fun opens => opens.1, fun batch impossible => by
        cases impossible⟩

/-- One guarded batch. -/
theorem receive_tracks {state after : Reception} (tracks : Tracks state)
    (assembled : AllAssembled state.trace) {bytes : Bytes}
    (solid : bytes.NoEmptyChunk) {fragMaxSize : Nat}
    (guarded : Guarded fragMaxSize state bytes)
    (received : state.receive fragMaxSize bytes = .ok after) :
    Tracks after ∧ AllAssembled after.trace := by
  unfold Reception.receive at received
  cases isArrival : arrival bytes.toVec with
  | none =>
      cases run : decodeBatch state.defrag bytes fragMaxSize with
      | error fault =>
          rw [run] at received
          cases received
      | ok result =>
          obtain ⟨outcome, defrag⟩ := result
          have same := decodeBatch_no_arrival solid isArrival run
          rw [run, ok_bind] at received
          simp only [isArrival] at received
          cases received
          subst same
          exact ⟨tracks, assembled⟩
  | some arrived =>
      obtain ⟨outcome, dbuf, run, accepts⟩ :=
        decodeBatch_arrival solid isArrival state.defrag fragMaxSize
      unfold Guarded at guarded
      rw [isArrival] at guarded
      have kept := accepts_tracks tracks guarded accepts
      rw [run, ok_bind] at received
      simp only [isArrival] at received
      cases received
      exact ⟨kept.1, assembled.append kept.2⟩

/--
In a guarded run from fresh buffers every reassembled message is assembled
from consecutive accepted fragments of its stream.
-/
theorem receiveAll_assembled (fragMaxSize : Nat) (batches : List Bytes)
    (solid : ∀ bytes ∈ batches, bytes.NoEmptyChunk)
    (guarded : GuardedRun fragMaxSize Reception.new batches)
    (after : Reception)
    (received : Reception.new.receiveAll fragMaxSize batches = .ok after) :
    AllAssembled after.trace := by
  suffices general : ∀ state : Reception, Tracks state →
      AllAssembled state.trace → GuardedRun fragMaxSize state batches →
        state.receiveAll fragMaxSize batches = .ok after →
          AllAssembled after.trace by
    apply general _ tracks_new _ guarded received
    intro before entry after batch split
    cases before <;> cases split
  clear guarded received
  induction batches with
  | nil =>
      intro state _ assembled _ received
      cases received
      exact assembled
  | cons bytes rest hypothesis =>
      intro state tracks assembled guarded received
      unfold Reception.receiveAll at received
      cases step : state.receive fragMaxSize bytes with
      | error fault =>
          rw [step] at received
          cases received
      | ok next =>
          rw [step, ok_bind] at received
          have kept := receive_tracks tracks assembled
            (solid bytes (List.mem_cons_self ..)) guarded.1 step
          have later := guarded.2
          rw [step] at later
          exact hypothesis
            (fun other member =>
              solid other (List.mem_cons_of_mem _ member))
            next kept.1 kept.2 later received

/-- A first and a last fragment that make up one message. -/
theorem receiveAll_assembled_two :
    ∃ after, Reception.new.receiveAll 100
        [.single (Chunk.ofBuf [0, 1, 0x01, 1, 7, 8]),
          .single (Chunk.ofBuf [0, 2, 0x41, 1, 9])] = .ok after ∧
      AllAssembled after.trace := by
  have ordinary : (Reception.new.receiveAll 100
      [.single (Chunk.ofBuf [0, 1, 0x01, 1, 7, 8]),
        .single (Chunk.ofBuf [0, 2, 0x41, 1, 9])]).isOk = true := by
    decide
  cases received : Reception.new.receiveAll 100
      [.single (Chunk.ofBuf [0, 1, 0x01, 1, 7, 8]),
        .single (Chunk.ofBuf [0, 2, 0x41, 1, 9])] with
  | error fault => simp [received, Except.isOk, Except.toBool] at ordinary
  | ok after =>
      refine ⟨after, rfl, receiveAll_assembled 100 _ ?_ (by decide) after
        received⟩
      intro bytes member
      rcases List.mem_cons.1 member with rfl | member
      · exact Bytes.noEmptyChunk_single (by decide)
      · cases List.mem_singleton.1 member
        exact Bytes.noEmptyChunk_single (by decide)

/--
Fresh buffers accept a lone last fragment with number and identifier zero and
deliver a message that no first fragment started.
-/
theorem lone_last_delivered :
    ∃ after entry batch,
      Reception.new.receiveAll 100
          [.single (Chunk.ofBuf [0, 0, 0x41, 0, 42])] = .ok after ∧
        after.trace = [entry] ∧ entry.arrival.kind = .last ∧
        entry.outcome = .deliver batch ∧ batch.bytes.toVec = [42] ∧
        ¬ AllAssembled after.trace := by
  refine ⟨_, _, _, rfl, rfl, rfl, rfl, rfl, ?_⟩
  intro assembled
  have two := (assembled [] _ [] _ rfl rfl).two_le
  exact absurd (Nat.le_trans two (length_history_le _ _)) (by decide)

end Rx
end Thubo
