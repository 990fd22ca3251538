import Mathlib.Data.List.Forall2
import Thubo.Pipeline.Leftover

/-!
# Who has written what into a batch

A batch is divided into shares: what one push has written into it at one
time, which is a header or a part of its message.  The shares are kept for
every batch size, also when a push fails to encode its message and leaves a
part of a header in the booked batch.

A batch holds only shares of pushes with its own congestion control.  A batch
with a drop flag holds only shares of the push that the flag belongs to, or
that push has failed to encode its message.  The shares of a push that has
written its whole message make up the message.
-/

namespace Thubo
namespace Tx

/-! ## Shares -/

/-- What a push has written into a batch at one time. -/
structure Share where
  /-- Position of the push in the order in which pushes held the lock. -/
  push : Nat
  /-- A part of the message, not of a header. -/
  body : Bool
  bytes : List UInt8
deriving DecidableEq, Repr

namespace Share

/-- The bytes of shares, one after another. -/
def contents (shares : List Share) : List UInt8 :=
  shares.flatMap Share.bytes

/-- What a push has written of its message. -/
def written (push : Nat) (shares : List Share) : List UInt8 :=
  contents (shares.filter fun share =>
    decide (share.push = push) && share.body)

@[simp]
theorem contents_nil : contents [] = [] :=
  rfl

@[simp]
theorem contents_cons (share : Share) (shares : List Share) :
    contents (share :: shares) = share.bytes ++ contents shares :=
  List.flatMap_cons

@[simp]
theorem contents_append (left right : List Share) :
    contents (left ++ right) = contents left ++ contents right :=
  List.flatMap_append

@[simp]
theorem written_nil (push : Nat) : written push [] = [] :=
  rfl

@[simp]
theorem written_append (push : Nat) (left right : List Share) :
    written push (left ++ right) =
      written push left ++ written push right := by
  simp [written]

/-- The shares of other pushes do not count. -/
theorem written_of_ne {push : Nat} {shares : List Share}
    (others : ∀ share ∈ shares, share.push ≠ push) :
    written push shares = [] := by
  rw [written, List.filter_eq_nil_iff.2, contents_nil]
  intro share member
  simp [others share member]

/-- A header and a part of the message of one push. -/
def ofPush (push : Nat) (header body : List UInt8) : List Share :=
  [⟨push, false, header⟩, ⟨push, true, body⟩]

theorem contents_ofPush (push : Nat) (header body : List UInt8) :
    contents (ofPush push header body) = header ++ body := by
  simp [ofPush]

theorem written_ofPush (push : Nat) (header body : List UInt8) :
    written push (ofPush push header body) = body := by
  simp [written, ofPush]

theorem push_ofPush {push : Nat} {header body : List UInt8} :
    ∀ share ∈ ofPush push header body, share.push = push := by
  simp [ofPush]

/-- A part of a header that has been left behind. -/
def ofLeft (push : Nat) (extra : List UInt8) : List Share :=
  if extra = [] then [] else [⟨push, false, extra⟩]

theorem contents_ofLeft (push : Nat) (extra : List UInt8) :
    contents (ofLeft push extra) = extra := by
  unfold ofLeft
  split
  · rename_i nothing
    rw [nothing]
    rfl
  · simp

theorem push_ofLeft {push : Nat} {extra : List UInt8} :
    ∀ share ∈ ofLeft push extra, share.push = push := by
  unfold ofLeft
  split <;> simp

theorem bytes_ofLeft {push : Nat} {extra : List UInt8} :
    ∀ share ∈ ofLeft push extra, share.bytes ≠ [] := by
  unfold ofLeft
  split
  · simp
  · rename_i something
    simpa using something

end Share

open Share (written)

/-! ## The shares of the batches of a stage -/

/-- The pushes that have held the lock, in this order. -/
def Stage.pushes (stage : Stage) : List (Bytes × QoS) :=
  stage.log.map (fun entry => (entry.msg, entry.qos)) ++
    stage.running.toList.map fun push => (push.msg, push.qos)

/-- A push has failed to encode its message. -/
def Stage.Broke (stage : Stage) (push : Nat) : Prop :=
  ∃ entry, stage.log[push]? = some entry ∧
    entry.result = .error .encodingFailed

/-- A batch of the priority consists of shares of its own kind. -/
structure Holds (p : Priority) (stage : Stage) (batch : WriteBatch)
    (shares : List Share) : Prop where
  content_eq : batch.content = Share.contents shares
  priority_eq : batch.qos.priority = p
  control : ∀ share ∈ shares, ∃ msg qos,
    stage.pushes[share.push]? = some (msg, qos) ∧
      qos.congestionControl = batch.qos.congestionControl
  flagged : ∀ push, batch.drop = some push →
    stage.Broke push ∨ ∀ share ∈ shares, share.push = push

/-- The booked batch, into which later pushes write. -/
structure Open (p : Priority) (stage : Stage) (batch : WriteBatch)
    (shares : List Share) : Prop where
  holds : Holds p stage batch shares
  writable : batch.Writable stage.batchSize
  solid : ∀ share ∈ shares, share.bytes ≠ []
  broke : ∀ push, batch.drop = some push → stage.Broke push
  filled : batch.content = [] → batch.frame.remaining = 0

/-- What a push in progress has done. -/
def Underway (p : Priority) (stage : Stage) (push : Push)
    (done : List UInt8) : Prop :=
  push.qos.priority = p ∧ push.msg.len < 2 ^ 64 ∧
    match push.point with
    | .start => done = []
    | .fresh => stage.booked = none ∧ done = []
    | .fragments _ _ reader =>
        stage.booked = none ∧ reader.Placed ∧
          done ++ reader.rest = encodeMessage push.msg.toVec

/--
The shares of the committed batches and of the booked one.  The shares of an
accepted push make up its message.
-/
structure Traced (p : Priority) (stage : Stage)
    (parts : List (List Share)) (current : List Share) : Prop where
  committed : List.Forall₂ (Holds p stage) stage.committed parts
  unbooked : stage.booked = none → current = []
  booked : ∀ batch, stage.booked = some batch → Open p stage batch current
  accepted : ∀ push entry, stage.log[push]? = some entry →
    entry.result = .ok () →
      written push (parts.flatten ++ current) =
        encodeMessage entry.msg.toVec
  running : ∀ push, stage.running = some push →
    Underway p stage push
      (written stage.log.length (parts.flatten ++ current))

theorem traced_new (p : Priority) (batchSize : Nat) :
    Traced p (.new batchSize) [] [] where
  committed := .nil
  unbooked _ := rfl
  booked batch impossible := by
    cases impossible
  accepted push entry impossible := by
    cases impossible
  running push impossible := by
    cases impossible

/-! ## More pushes -/

variable {p : Priority} {stage after : Stage}
variable {parts : List (List Share)} {current : List Share}

/-- An entry of a list stays when the list grows. -/
theorem getElem?_later {α : Type} {before after : List α}
    (grown : before <+: after) {index : Nat} {entry : α}
    (found : before[index]? = some entry) : after[index]? = some entry := by
  rcases grown with ⟨more, rfl⟩
  rw [List.getElem?_append_left (List.getElem?_eq_some_iff.1 found).1]
  exact found

theorem Stage.Broke.later {push : Nat} (broke : stage.Broke push)
    (log : stage.log <+: after.log) : after.Broke push := by
  rcases broke with ⟨entry, found, failed⟩
  exact ⟨entry, getElem?_later log found, failed⟩

/-- The shares of a batch stay when more pushes come. -/
theorem Holds.later {batch : WriteBatch} {shares : List Share}
    (holds : Holds p stage batch shares) (log : stage.log <+: after.log)
    (pushes : stage.pushes <+: after.pushes) :
    Holds p after batch shares where
  content_eq := holds.content_eq
  priority_eq := holds.priority_eq
  control share member := by
    rcases holds.control share member with ⟨msg, qos, found, same⟩
    exact ⟨msg, qos, getElem?_later pushes found, same⟩
  flagged push flag := by
    rcases holds.flagged push flag with broke | own
    · exact Or.inl (broke.later log)
    · exact Or.inr own

theorem Open.later {batch : WriteBatch} {shares : List Share}
    (open_ : Open p stage batch shares) (log : stage.log <+: after.log)
    (pushes : stage.pushes <+: after.pushes)
    (batchSize : after.batchSize = stage.batchSize) :
    Open p after batch shares where
  holds := open_.holds.later log pushes
  writable := by
    rw [batchSize]
    exact open_.writable
  solid := open_.solid
  broke push flag := (open_.broke push flag).later log
  filled := open_.filled

/-- The committed batches keep their shares, and one batch may follow. -/
theorem Traced.later (traced : Traced p stage parts current)
    (log : stage.log <+: after.log)
    (pushes : stage.pushes <+: after.pushes) :
    List.Forall₂ (Holds p after) stage.committed parts :=
  traced.committed.imp fun _ _ holds => holds.later log pushes

/-- The running push comes next in the order of pushes. -/
theorem pushes_running {push : Push}
    (isRunning : stage.running = some push) :
    stage.pushes[stage.log.length]? = some (push.msg, push.qos) := by
  simp [Stage.pushes, isRunning]

/-- A push that has ended keeps its place. -/
theorem pushes_finish {push : Push} (isRunning : stage.running = some push)
    {result : Except SendError Unit}
    (log : after.log = stage.log ++ [⟨push.msg, push.qos, result⟩])
    (idle : after.running = none) : stage.pushes <+: after.pushes := by
  simp [Stage.pushes, isRunning, log, idle]

theorem pushes_suspend {push next : Push}
    (isRunning : stage.running = some push) (log : after.log = stage.log)
    (running : after.running = some next) (msg : next.msg = push.msg)
    (qos : next.qos = push.qos) : stage.pushes <+: after.pushes := by
  simp [Stage.pushes, isRunning, log, running, msg, qos]

/-- Every share is one of a push that has held the lock. -/
theorem Traced.push_lt (traced : Traced p stage parts current)
    {share : Share} (member : share ∈ parts.flatten ++ current) :
    share.push < stage.pushes.length := by
  have bound : ∀ {batch : WriteBatch} {shares : List Share},
      Holds p stage batch shares → share ∈ shares →
        share.push < stage.pushes.length := by
    intro batch shares holds inside
    rcases holds.control share inside with ⟨msg, qos, found, _⟩
    exact (List.getElem?_eq_some_iff.1 found).1
  rcases List.mem_append.1 member with earlier | here
  · rcases List.mem_flatten.1 earlier with ⟨shares, part, inside⟩
    rcases List.append_of_mem part with ⟨front, back, rfl⟩
    rcases Merge.forall₂_split traced.committed.flip with
      ⟨_, batch, _, _, holds, _⟩
    exact bound holds inside
  · cases isBooked : stage.booked with
    | none =>
        rw [traced.unbooked isBooked] at here
        cases here
    | some batch => exact bound (traced.booked batch isBooked).holds here

/-- A push that takes the lock has written nothing yet. -/
theorem Traced.written_next (traced : Traced p stage parts current)
    (idle : stage.running = none) :
    written stage.log.length (parts.flatten ++ current) = [] := by
  apply Share.written_of_ne
  intro share member same
  have bound := traced.push_lt member
  simp only [Stage.pushes, idle, Option.toList_none, List.map_nil,
    List.append_nil, List.length_map] at bound
  omega

/-- The running push ends and leaves `added` to the other shares. -/
theorem Traced.finish (traced : Traced p stage parts current)
    {push : Push} {added : List Share}
    (own : ∀ share ∈ added, share.push = stage.log.length)
    {result : Except SendError Unit}
    (log : after.log = stage.log ++ [⟨push.msg, push.qos, result⟩])
    (idle : after.running = none)
    (whole : result = .ok () →
      written stage.log.length (parts.flatten ++ current ++ added) =
        encodeMessage push.msg.toVec)
    {parts' : List (List Share)} {current' : List Share}
    (all : parts'.flatten ++ current' = parts.flatten ++ current ++ added)
    (committed : List.Forall₂ (Holds p after) after.committed parts')
    (unbooked : after.booked = none → current' = [])
    (booked : ∀ batch, after.booked = some batch →
      Open p after batch current') :
    Traced p after parts' current' where
  committed := committed
  unbooked := unbooked
  booked := booked
  accepted index entry found ok := by
    rw [all]
    rw [log, List.getElem?_append] at found
    split at found
    · rename_i earlier
      rw [Share.written_append, traced.accepted index entry found ok,
        Share.written_of_ne, List.append_nil]
      intro share member
      rw [own share member]
      omega
    · rename_i late
      have here : index = stage.log.length := by
        have bound := (List.getElem?_eq_some_iff.1 found).1
        simp only [List.length_singleton] at bound
        omega
      rw [here, Nat.sub_self] at found
      cases found
      rw [here]
      exact whole ok
  running push impossible := by
    rw [idle] at impossible
    cases impossible

/-- The running push goes on and leaves `added` to the other shares. -/
theorem Traced.suspend (traced : Traced p stage parts current)
    {added : List Share}
    (own : ∀ share ∈ added, share.push = stage.log.length)
    {next : Push} (log : after.log = stage.log)
    (running : after.running = some next)
    (runs : Underway p after next
      (written stage.log.length (parts.flatten ++ current ++ added)))
    {parts' : List (List Share)} {current' : List Share}
    (all : parts'.flatten ++ current' = parts.flatten ++ current ++ added)
    (committed : List.Forall₂ (Holds p after) after.committed parts')
    (unbooked : after.booked = none → current' = [])
    (booked : ∀ batch, after.booked = some batch →
      Open p after batch current') :
    Traced p after parts' current' where
  committed := committed
  unbooked := unbooked
  booked := booked
  accepted index entry found ok := by
    rw [log] at found
    rw [all, Share.written_append, traced.accepted index entry found ok,
      Share.written_of_ne, List.append_nil]
    intro share member
    have bound := (List.getElem?_eq_some_iff.1 found).1
    rw [own share member]
    omega
  running push same := by
    rw [running] at same
    cases same
    rw [log, all]
    exact runs

end Tx
end Thubo
