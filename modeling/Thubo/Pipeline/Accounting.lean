import Thubo.Pipeline.Moves

/-!
# What is discarded

The bytes of every batch are divided into the shares of the pushes that wrote
them.  A batch that the puller discards has only shares of best-effort
messages, or only shares of one push that returns an error.  The shares of an
accepted message make it up, so those of one that blocks are all in batches
that wait or were handed out.
-/

namespace Thubo
namespace Tx

variable {p : Priority} {queue : Queue}

/-! ## Pushes that fail -/

/-- A push returns an error, or will when it has released the lock. -/
def Returns (queue : Queue) (call : Nat) (c : Call) (error : SendError) :
    Prop :=
  c.point = .done (.error error) ∨ c.point = .congest error ∨
    (c.point = .inside ∧
      queue.lock = some (.push call (.unlock (.error error))))

/-- A push that holds the lock and has ended is about to release it. -/
theorem ended_inside {stage : Stage} {here : Inside} {entry : Finished}
    (fits : Fits stage here) (idle : stage.running = none)
    (last : stage.log.getLast? = some entry) {error : SendError}
    (failed : entry.result = .error error) :
    here = .unlock (.error error) := by
  have notSent : ¬ stage.Sent := by
    rintro ⟨other, same, ok⟩
    rw [last] at same
    cases same
    rw [failed] at ok
    cases ok
  have notRunning : ¬ stage.running.isSome := by
    rw [idle]
    exact Bool.false_ne_true
  cases here with
  | test => exact absurd (fits.2 idle) notSent
  | signal => exact absurd (fits.2 idle) notSent
  | unlock result =>
      rcases fits with ⟨_, how⟩
      cases result with
      | ok notify => exact absurd how notSent
      | error other =>
          rcases how with ⟨found, same, is⟩ | ⟨_, sent⟩
          · rw [last] at same
            cases same
            rw [failed] at is
            cases is
            rfl
          · exact absurd sent notSent
  | flush =>
      rcases fits with ⟨next, stepped, _, _⟩
      exact absurd (running_of_resume stepped) notRunning
  | update =>
      rcases fits with ⟨next, stepped, _, _⟩
      exact absurd (running_of_resume stepped) notRunning
  | clear flush | commit flush =>
      rcases fits with ⟨next, stepped, _⟩
      exact absurd (running_of_resume stepped) notRunning
  | acquire | serialize => exact absurd fits notRunning
  | pop | start | room | book | wait | fail other =>
      exact absurd fits.1 notRunning

/-- A push that the log says has failed returns the error. -/
theorem Sound.returns (sound : Sound p queue) {call : Nat} {c : Call}
    (found : queue.calls[call]? = some c) {error : SendError}
    (ended : c.Ended queue.stage.log (.error error))
    (stays : c.point ≠ .gone) : Returns queue call c error := by
  have told := sound.logged.told call c found
  have turned : c.turn ≠ none := by
    rcases ended with ⟨turn, entry, own, _⟩
    rw [own]
    simp
  unfold Call.Told at told
  split at told
  · exact absurd told turned
  · exact absurd told turned
  · exact absurd told turned
  · rename_i inside
    rcases told with ⟨here, locked⟩
    rcases sound.logged.holder call ⟨here, locked⟩ with
      ⟨d, turn, again, _, own, place⟩
    rw [found] at again
    cases again
    rcases ended with ⟨turn', entry, own', at_, failed⟩
    rw [own] at own'
    cases own'
    have early := (List.getElem?_eq_some_iff.1 at_).1
    have idle : queue.stage.running = none := by
      cases running : queue.stage.running with
      | none => rfl
      | some push =>
          simp [Stage.pushes, running] at place
          omega
    have last : queue.stage.log.getLast? = some entry := by
      rw [List.getLast?_eq_getElem?, ← at_]
      congr 1
      simp [Stage.pushes, idle] at place
      omega
    have agree := sound.agree
    rw [locked] at agree
    have where_ := ended_inside (agree.fits here rfl) idle last failed
    rw [where_] at locked
    exact Or.inr (Or.inr ⟨inside, locked⟩)
  · cases ended.unique told
  · cases ended.unique told
  · cases ended.unique told
  · rename_i other point
    rcases told with ⟨never, _⟩ | again
    · exact absurd never turned
    · cases ended.unique again
      exact Or.inr (Or.inl point)
  · rename_i other point
    rcases told with ⟨never, _⟩ | again | ⟨_, again⟩
    · exact absurd never turned
    · cases ended.unique again
      exact Or.inl point
    · cases ended.unique again
  · rename_i gone
    exact absurd gone stays

/-! ## The shares of the batches -/

/-- Only pushes of best-effort messages have written into a batch. -/
def OnlyDrop (queue : Queue) (shares : List Share) : Prop :=
  ∀ share ∈ shares, ∃ (call : Nat) (c : Call),
    queue.calls[call]? = some c ∧ c.turn = some share.push ∧
      c.qos.congestionControl = .drop

/-- Only one push has written into a batch, and it returns an error. -/
def OnlyFailed (queue : Queue) (shares : List Share) : Prop :=
  ∃ (call : Nat) (c : Call) (error : SendError),
    queue.calls[call]? = some c ∧ Returns queue call c error ∧
      ∀ share ∈ shares, c.turn = some share.push

/-- The shares of the batches that have been handed out. -/
def handedShares (left : List Departure) (gone : List (List Share)) :
    List Share :=
  (((left.zip gone).filter fun pair =>
    pair.1.fate = .handedOut).map Prod.snd).flatten

/--
The bytes of the batches that have left the ring, of those that wait in it or
are being inspected, and of the booked batch are divided into shares.
-/
structure Accounted (queue : Queue) (gone waiting : List (List Share))
    (current : List Share) : Prop where
  /-- A discarded batch has only bytes that may be lost. -/
  left : List.Forall₂
    (fun departure shares =>
      departure.slot.batch.content = Share.contents shares ∧
        (departure.fate = .discarded →
          OnlyDrop queue shares ∨ OnlyFailed queue shares))
    queue.left gone
  present : List.Forall₂
    (fun batch shares => batch.content = Share.contents shares)
    (queue.pool.hand.toList.map Slot.batch ++
      queue.pool.ring.map Slot.batch) waiting
  booked : ∀ batch, queue.stage.booked = some batch →
    batch.content = Share.contents current
  unbooked : queue.stage.booked = none → current = []
  /-- Every share belongs to one push. -/
  owned : ∀ share ∈ gone.flatten ++ waiting.flatten ++ current,
    ∃ (call : Nat) (c : Call),
      queue.calls[call]? = some c ∧ c.turn = some share.push
  single : ∀ (call other : Nat) (c d : Call) (turn : Nat),
    queue.calls[call]? = some c → queue.calls[other]? = some d →
      c.turn = some turn → d.turn = some turn → call = other
  /-- The shares of an accepted message are its bytes, in order. -/
  whole : ∀ c ∈ queue.calls, c.point = .done (.ok ()) →
    ∃ turn, c.turn = some turn ∧
      Share.written turn (gone.flatten ++ waiting.flatten ++ current) =
        encodeMessage c.msg.toVec
  /-- Nothing of an accepted message that blocks is discarded. -/
  kept : ∀ c ∈ queue.calls, c.qos.congestionControl = .block →
    c.point = .done (.ok ()) → ∃ turn, c.turn = some turn ∧
      Share.written turn
          (handedShares queue.left gone ++ waiting.flatten ++ current) =
        encodeMessage c.msg.toVec

/-- The push that a share belongs to. -/
theorem Sound.writer (sound : Sound p queue) {push : Nat} {msg : Bytes}
    {qos : QoS} (found : queue.stage.pushes[push]? = some (msg, qos)) :
    ∃ (call : Nat) (c : Call), queue.calls[call]? = some c ∧
      c.turn = some push ∧ c.qos = qos := by
  have bound := (List.getElem?_eq_some_iff.1 found).1
  rcases sound.logged.taken push bound with ⟨call, c, here, own⟩
  have same := sound.logged.called call c push here own
  rw [found] at same
  cases same
  exact ⟨call, c, here, own, rfl⟩

/-- Every share has been written by a push that has held the lock. -/
theorem Traced.share_pushed {stage : Stage} {parts : List (List Share)}
    {current : List Share} (traced : Traced p stage parts current)
    {share : Share} (member : share ∈ parts.flatten ++ current) :
    ∃ msg qos, stage.pushes[share.push]? = some (msg, qos) := by
  rcases List.mem_append.1 member with committed | open_
  · rcases List.mem_flatten.1 committed with ⟨shares, among, inside⟩
    rcases List.mem_iff_getElem.1 among with ⟨index, bound, rfl⟩
    have holds := (List.forall₂_iff_get.1 traced.committed).2 index
      (by rw [traced.committed.length_eq]; exact bound) bound
    rcases holds.control share inside with ⟨msg, qos, found, _⟩
    exact ⟨msg, qos, found⟩
  · cases isBooked : stage.booked with
    | none =>
        rw [traced.unbooked isBooked] at open_
        cases open_
    | some batch =>
        rcases (traced.booked batch isBooked).holds.control share open_ with
          ⟨msg, qos, found, _⟩
        exact ⟨msg, qos, found⟩

/-- A discarded batch has only shares that may be lost. -/
theorem Sound.lost (sound : Sound p queue) {departure : Departure}
    (member : departure ∈ queue.left) (fate : departure.fate = .discarded)
    {shares : List Share}
    (holds : Holds p queue.stage departure.slot.batch shares) :
    OnlyDrop queue shares ∨ OnlyFailed queue shares := by
  rcases sound.discarded departure member fate with drop | ⟨turn, set, own⟩
  · left
    intro share inside
    rcases holds.control share inside with ⟨msg, qos, found, same⟩
    rcases sound.writer found with ⟨call, c, here, turn, rfl⟩
    exact ⟨call, c, here, turn, same.trans drop⟩
  · right
    rcases sound.flagged turn set with
      ⟨call, c, error, found, mine, stays, ended, known⟩
    refine ⟨call, c, error, found, sound.returns found ended stays, ?_⟩
    intro share inside
    rcases holds.flagged turn own with broke | all
    · rcases broke with ⟨entry, at_, failed⟩
      rcases ended with ⟨turn', entry', own', at_', is⟩
      rw [mine] at own'
      cases own'
      rw [at_] at at_'
      cases at_'
      rw [failed] at is
      cases is
      exact absurd rfl known
    · rw [all share inside]
      exact mine

/-- Discarded batches have no share of a push that has none in them. -/
theorem written_handedShares {turn : Nat} {left : List Departure}
    {gone : List (List Share)}
    (related : List.Forall₂
      (fun departure shares => departure.fate = Fate.discarded →
        ∀ share ∈ shares, share.push ≠ turn) left gone) :
    Share.written turn gone.flatten =
      Share.written turn (handedShares left gone) := by
  induction related with
  | nil => rfl
  | cons related rest hypothesis =>
      rename_i departure shares left gone
      rw [List.flatten_cons, Share.written_append, hypothesis]
      unfold handedShares
      cases fate : departure.fate with
      | handedOut => simp [fate]
      | discarded =>
          rw [Share.written_of_ne (related fate)]
          simp [fate]

/-- A pairing of a list in two parts. -/
theorem forall₂_append {α β : Type} {relation : α → β → Prop}
    {front back : List α} {right : List β}
    (related : List.Forall₂ relation (front ++ back) right) :
    ∃ first second, right = first ++ second ∧
      List.Forall₂ relation front first ∧
        List.Forall₂ relation back second := by
  refine ⟨right.take front.length, right.drop front.length,
    (List.take_append_drop _ _).symm, ?_, ?_⟩
  · exact (List.forall₂_take_append _ _ _ related.flip).flip
  · exact (List.forall₂_drop_append _ _ _ related.flip).flip

/-- A pairing whose left side is known to be in a list. -/
theorem forall₂_mem {α β : Type} {relation : α → β → Prop}
    {left : List α} {right : List β}
    (related : List.Forall₂ relation left right) :
    List.Forall₂ (fun a b => a ∈ left ∧ relation a b) left right := by
  induction related with
  | nil => exact .nil
  | cons here rest hypothesis =>
      refine .cons ⟨List.mem_cons_self, here⟩ ?_
      exact hypothesis.imp fun a b both =>
        ⟨List.mem_cons_of_mem _ both.1, both.2⟩

/-- An accepted message that blocks is in no discarded batch. -/
theorem Sound.not_lost (sound : Sound p queue) {call turn : Nat} {c : Call}
    (found : queue.calls[call]? = some c) (own : c.turn = some turn)
    (block : c.qos.congestionControl = .block)
    (ok : c.point = .done (.ok ())) {shares : List Share}
    (lost : OnlyDrop queue shares ∨ OnlyFailed queue shares) :
    ∀ share ∈ shares, share.push ≠ turn := by
  rintro share member rfl
  rcases lost with drop | ⟨other, d, error, there, returns, all⟩
  · rcases drop share member with ⟨other, d, there, mine, control⟩
    cases sound.logged.single call other c d share.push found there own
      mine
    rw [found] at there
    cases there
    rw [block] at control
    cases control
  · cases sound.logged.single call other c d share.push found there own
      (all share member)
    rw [found] at there
    cases there
    rcases returns with point | point | ⟨point, _⟩
    · rw [ok] at point
      cases point
    · rw [ok] at point
      cases point
    · rw [ok] at point
      cases point

/-- The batches of a sound queue are accounted for. -/
theorem Sound.accounted (sound : Sound p queue) :
    ∃ gone waiting current, Accounted queue gone waiting current := by
  rcases sound.traced with ⟨parts, current, traced⟩
  have filed : queue.stage.committed = queue.departing := sound.filed
  have committed := traced.committed
  rw [filed, Queue.departing, List.append_assoc] at committed
  rcases forall₂_append committed with ⟨gone, waiting, split, left, rest⟩
  rw [List.forall₂_map_left_iff] at left
  have lost : List.Forall₂
      (fun departure shares =>
        departure.slot.batch.content = Share.contents shares ∧
          (departure.fate = .discarded →
            OnlyDrop queue shares ∨ OnlyFailed queue shares))
      queue.left gone :=
    (forall₂_mem left).imp fun departure shares both =>
      ⟨both.2.content_eq, fun fate => sound.lost both.1 fate both.2⟩
  have whole : ∀ c ∈ queue.calls, c.point = .done (.ok ()) →
      ∃ (call turn : Nat), queue.calls[call]? = some c ∧
        c.turn = some turn ∧
          Share.written turn (gone.flatten ++ waiting.flatten ++ current) =
            encodeMessage c.msg.toVec := by
    intro c member ok
    rcases List.mem_iff_getElem?.1 member with ⟨call, found⟩
    rcases sound.vouched.returned call c found ok with
      ⟨turn, entry, own, place, same, isOk⟩
    refine ⟨call, turn, found, own, ?_⟩
    rw [same, ← List.flatten_append, ← split]
    exact traced.accepted turn entry place isOk
  refine ⟨gone, waiting, current, ?_⟩
  constructor
  · exact lost
  · exact rest.imp fun batch shares holds => holds.content_eq
  · intro batch isBooked
    exact (traced.booked batch isBooked).holds.content_eq
  · exact traced.unbooked
  · intro share member
    rw [← List.flatten_append, ← split] at member
    rcases traced.share_pushed member with ⟨msg, qos, pushed⟩
    rcases sound.writer pushed with ⟨call, c, found, own, _⟩
    exact ⟨call, c, found, own⟩
  · exact sound.logged.single
  · intro c member ok
    rcases whole c member ok with ⟨call, turn, found, own, bytes⟩
    exact ⟨turn, own, bytes⟩
  · intro c member block ok
    rcases whole c member ok with ⟨call, turn, found, own, bytes⟩
    have apart := written_handedShares (lost.imp
      fun departure shares both fate =>
        sound.not_lost found own block ok (both.2 fate))
    refine ⟨turn, own, ?_⟩
    rw [← bytes]
    simp only [Share.written_append]
    rw [apart]

end Tx
end Thubo
