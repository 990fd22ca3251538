import Thubo.Pipeline.Calls

/-!
# Queues that a run can reach

Everything that every step of a queue keeps, put together.  From it follows
that only batches of best-effort messages, or of a push that fails, are ever
discarded.
-/

namespace Thubo
namespace Tx

variable {p : Priority} {queue after : Queue} {action : Queue.Action}

/-! ## Drop flags -/

/-- The log only grows. -/
theorem Stepped.log (stepped : Stepped queue action after) :
    queue.stage.log <+: after.stage.log := by
  cases stepped with
  | quiet call backoff closed here there after holding goes inner =>
      exact inner ▸ List.prefix_refl _
  | commit call backoff closed flush stage batch pool holding resumed out
      free push running log committed =>
      rcases log with ⟨log, _⟩ | ⟨_, log⟩
      · exact log ▸ List.prefix_refl _
      · exact log ▸ List.prefix_append _ _
  | update call backoff closed stage batch bytes push holding resumed kept
      booked running idle log => exact log ▸ List.prefix_append _ _
  | broke call backoff closed stage batch push holding resumed kept booked
      running idle log => exact log ▸ List.prefix_append _ _
  | close call backoff stage holding abandoned =>
      rcases abandoned.ended with ⟨push, running, rfl⟩
      exact List.prefix_append _ _
  | fail call backoff closed stage error flags holding abandoned flagged =>
      rcases abandoned.ended with ⟨push, running, rfl⟩
      exact List.prefix_append _ _
  | cancel call stage holding abandoned =>
      rcases abandoned.ended with ⟨push, running, rfl⟩
      exact List.prefix_append _ _
  | _ => exact List.prefix_refl _

/-- A push that has an entry in the log does not go away. -/
theorem Stepped.kept (stepped : Stepped queue action after)
    (logged : Logged queue.calls queue.stage queue.lock) {call : Nat}
    {c : Call} {result : Except SendError Unit}
    (found : queue.calls[call]? = some c)
    (ended : c.Ended queue.stage.log result) (stays : c.point ≠ .gone) :
    ∃ d, after.calls[call]? = some d ∧ d.turn = c.turn ∧ d.msg = c.msg ∧
      d.qos = c.qos ∧ d.since = c.since ∧ d.point ≠ .gone := by
  have same : ∃ d, queue.calls[call]? = some d ∧ d.turn = c.turn ∧
      d.msg = c.msg ∧ d.qos = c.qos ∧ d.since = c.since ∧
        d.point ≠ .gone :=
    ⟨c, found, rfl, rfl, rfl, rfl, stays⟩
  have went : ∀ (other : Nat) (point : Point),
      (other = call → point ≠ .gone) →
      ∃ d, (queue.goTo other point).calls[call]? = some d ∧
        d.turn = c.turn ∧ d.msg = c.msg ∧ d.qos = c.qos ∧
          d.since = c.since ∧ d.point ≠ .gone := by
    intro other point goes
    refine ⟨_, getElem?_modify_of found, turn_at, ?_⟩
    split
    · rename_i own
      exact ⟨rfl, rfl, rfl, goes own⟩
    · exact ⟨rfl, rfl, rfl, stays⟩
  rcases ended with ⟨turn, entry, own, place, is⟩
  have early := (List.getElem?_eq_some_iff.1 place).1
  have told := logged.told call c found
  cases stepped with
  | call msg qos since =>
      exact ⟨c, getElem?_later (List.prefix_append _ _) found, rfl, rfl,
        rfl, rfl, stays⟩
  | walk other d backoff closed next walked walks =>
      refine went other next fun _ gone => ?_
      rw [gone] at walks
      generalize d.point = here at walks
      cases walks
  | congest other d backoff closed error walked point =>
      exact went other _ fun _ gone => by cases gone
  | enter other d backoff closed walked point free idle =>
      refine ⟨c, ?_, rfl, rfl, rfl, rfl, stays⟩
      rw [List.getElem?_modify_ne, found]
      rintro rfl
      rw [found] at walked
      cases walked
      have never : c.turn = none := by
        rcases point with point | point
        · rw [Call.Told, point] at told
          exact told
        · rw [Call.Told, point] at told
          exact told
      rw [never] at own
      cases own
  | quiet other backoff closed here there after holding goes inner =>
      rw [inner]
      exact same
  | unlock other backoff closed result holding =>
      refine went other _ fun _ gone => ?_
      cases result with
      | ok notify => cases notify <;> cases gone
      | error error => cases error <;> cases gone
  | overtime other d walked point =>
      exact went other _ fun _ gone => by cases gone
  | leave other d walked point =>
      refine went other _ ?_
      rintro rfl
      rw [found] at walked
      cases walked
      rw [Call.Told, point] at told
      have never : c.turn = none := told
      rw [never] at own
      cases own
  | cancel other stage holding abandoned =>
      refine went other _ ?_
      rintro rfl
      rcases logged.holder other ⟨_, holding.lock⟩ with
        ⟨d, last, again, inside, mine, length⟩
      rw [found] at again
      cases again
      rw [own] at mine
      cases mine
      rcases abandoned.ended with ⟨push, running, rfl⟩
      simp [Stage.pushes, running] at length
      omega
  | _ => exact same

/-- A drop flag that is set belongs to a push that fails. -/
def Flagged (queue : Queue) : Prop :=
  ∀ turn ∈ queue.flags, ∃ (call : Nat) (c : Call) (error : SendError),
    queue.calls[call]? = some c ∧ c.turn = some turn ∧ c.point ≠ .gone ∧
      c.Ended queue.stage.log (.error error) ∧ error ≠ .encodingFailed

theorem Stepped.flagged (stepped : Stepped queue action after)
    (agree : Agree queue.pool queue.stage (inside queue.lock))
    (logged : Logged queue.calls queue.stage queue.lock)
    (flagged : Flagged queue) : Flagged after := by
  have old : ∀ turn ∈ queue.flags,
      ∃ (call : Nat) (c : Call) (error : SendError),
        after.calls[call]? = some c ∧ c.turn = some turn ∧
          c.point ≠ .gone ∧ c.Ended after.stage.log (.error error) ∧
            error ≠ .encodingFailed := by
    intro turn member
    rcases flagged turn member with
      ⟨call, c, error, found, own, stays, ended, other⟩
    rcases stepped.kept logged found ended stays with
      ⟨d, later, same, _, _, _, remains⟩
    refine ⟨call, d, error, later, same.trans own, remains, ?_, other⟩
    rcases ended.later stepped.log with ⟨turn, entry, mine, place, is⟩
    exact ⟨turn, entry, same.trans mine, place, is⟩
  have flags : after.flags = queue.flags ∨
      (after.flags = queue.flags ++ [queue.stage.log.length] ∧
        ∃ call error stage, Holding queue call (.fail error) ∧
          Abandoned queue.stage stage error ∧ after.stage = stage ∧
            after.calls = queue.calls) := by
    cases stepped with
    | quiet call backoff closed here there after holding goes inner =>
        left
        rw [inner]
    | fail call backoff closed stage error flags holding abandoned set =>
        rcases set with rfl | rfl
        · exact Or.inl rfl
        · exact Or.inr
            ⟨rfl, call, error, stage, holding, abandoned, rfl, rfl⟩
    | _ => exact Or.inl rfl
  rcases flags with same | ⟨added, call, error, stage, holding, abandoned,
    became, calls⟩
  · intro turn member
    rw [same] at member
    exact old turn member
  · intro turn member
    rw [added] at member
    rcases List.mem_append.1 member with before | new
    · exact old turn before
    · rw [List.mem_singleton.1 new]
      rcases logged.holder call ⟨_, holding.lock⟩ with
        ⟨c, last, found, inside, own, length⟩
      rw [holding.lock] at agree
      have kinds := (agree.fits _ rfl).2.2
      rcases abandoned.ended with ⟨push, running, rfl⟩
      have here : last = queue.stage.log.length := by
        simp [Stage.pushes, running] at length
        omega
      rw [here] at own
      refine ⟨call, c, error, by rw [calls]; exact found, own, ?_,
        ⟨_, ⟨push.msg, push.qos, .error error⟩, own, ?_, rfl⟩, ?_⟩
      · rw [inside]
        intro impossible
        cases impossible
      · rw [became]
        exact List.getElem?_concat_length
      · rcases kinds with rfl | rfl <;> intro impossible <;>
          cases impossible

/-! ## Discarded batches -/

/-- A batch is discarded for its kind or its drop flag. -/
def Discarded (queue : Queue) : Prop :=
  ∀ departure ∈ queue.left, departure.fate = .discarded →
    departure.slot.batch.qos.congestionControl = .drop ∨
      ∃ turn ∈ queue.flags, departure.slot.batch.drop = some turn

theorem Stepped.discarded (stepped : Stepped queue action after)
    (discarded : Discarded queue) : Discarded after := by
  have grown : ∀ departure ∈ queue.left, departure.fate = .discarded →
      queue.flags ⊆ after.flags →
        departure.slot.batch.qos.congestionControl = .drop ∨
          ∃ turn ∈ after.flags, departure.slot.batch.drop = some turn := by
    intro departure member fate flags
    rcases discarded departure member fate with drop | ⟨turn, set, own⟩
    · exact Or.inl drop
    · exact Or.inr ⟨turn, flags set, own⟩
  cases stepped with
  | quiet call backoff closed here there after holding goes inner =>
      rw [inner]
      exact discarded
  | fail call backoff closed stage error flags holding abandoned set =>
      intro departure member fate
      apply grown departure member fate
      rcases set with rfl | rfl
      · exact List.Subset.refl _
      · exact List.subset_append_left _ _
  | decide congested slot pool inspected kept =>
      intro departure member fate
      rcases List.mem_append.1 member with old | new
      · exact discarded departure old fate
      · cases List.mem_singleton.1 new
        simp only [Queue.fate] at fate
        split at fate
        · rename_i why
          rcases why with ⟨_, drop⟩ | set
          · exact Or.inl drop
          · unfold Queue.flagged at set
            split at set
            · rename_i turn own
              exact Or.inr ⟨turn, of_decide_eq_true set, own⟩
            · cases set
        · cases fate
  | collect slot taken pool took inspected kept =>
      intro departure member fate
      rcases List.mem_append.1 member with old | new
      · exact discarded departure old fate
      · cases List.mem_singleton.1 new
        cases fate
  | _ => exact discarded

/-! ## Errors -/

/-- No push has ended with an internal error. -/
def Proper (stage : Stage) : Prop :=
  ∀ entry ∈ stage.log, entry.result ≠ .error .internal

/-- Another push ends. -/
theorem Proper.snoc {stage later : Stage} (proper : Proper stage)
    {entry : Finished} (log : later.log = stage.log ++ [entry])
    (known : entry.result ≠ .error .internal) : Proper later := by
  intro other member
  rw [log] at member
  rcases List.mem_append.1 member with old | new
  · exact proper other old
  · rw [List.mem_singleton.1 new]
    exact known

theorem Stepped.proper (stepped : Stepped queue action after)
    (agree : Agree queue.pool queue.stage (inside queue.lock))
    (proper : Proper queue.stage) : Proper after.stage := by
  cases stepped with
  | quiet call backoff closed here there after holding goes inner =>
      rw [inner]
      exact proper
  | commit call backoff closed flush stage batch pool holding resumed out
      free push running log committed =>
      rcases log with ⟨log, _⟩ | ⟨_, log⟩
      · intro entry member
        rw [log] at member
        exact proper entry member
      · exact proper.snoc log (by simp)
  | update call backoff closed stage batch bytes push holding resumed kept
      booked running idle log => exact proper.snoc log (by simp)
  | broke call backoff closed stage batch push holding resumed kept booked
      running idle log => exact proper.snoc log (by simp)
  | close call backoff stage holding abandoned =>
      rcases abandoned.ended with ⟨push, running, rfl⟩
      exact proper.snoc rfl (by simp)
  | fail call backoff closed stage error flags holding abandoned flagged =>
      rw [holding.lock] at agree
      rcases abandoned.ended with ⟨push, running, rfl⟩
      refine proper.snoc rfl ?_
      rcases (agree.fits _ rfl).2.2 with rfl | rfl
      · simp
      · simp
  | cancel call stage holding abandoned =>
      rcases abandoned.ended with ⟨push, running, rfl⟩
      exact proper.snoc rfl (by simp)
  | _ => exact proper

/-- No push has an entry with an internal error. -/
theorem Proper.not_ended {stage : Stage} (proper : Proper stage)
    (c : Call) : ¬ c.Ended stage.log (.error .internal) := by
  rintro ⟨turn, entry, own, found, is⟩
  exact proper entry (List.mem_of_getElem? found) is

/-! ## Priorities -/

/-- The batches that come back carry the priority of the queue. -/
def Routed (p : Priority) (pool : Pool) : Prop :=
  ∀ slot ∈ pool.held ++ pool.refill, slot.batch.qos.priority = p

theorem clear_qos (batch : WriteBatch) : batch.clear.qos = batch.qos :=
  rfl

theorem Stepped.routed (stepped : Stepped queue action after)
    (inspected : ∀ slot, slot ∈ queue.pool.ring ∨
      queue.pool.hand = some slot → slot.batch.qos.priority = p)
    (routed : Routed p queue.pool) : Routed p after.pool := by
  cases stepped with
  | quiet call backoff closed here there after holding goes inner =>
      rw [inner]
      exact routed
  | allocate call backoff closed holding free dry =>
      unfold Pool.allocate
      split <;> exact routed
  | pop call backoff closed pool holding popped =>
      rcases Pool.popRefill_eq popped with ⟨slot, first, bare, same⟩
      intro other member
      rw [same] at member
      apply routed other
      rw [first]
      rcases List.mem_append.1 member with held | refill
      · exact List.mem_append_left _ held
      · exact List.mem_append_right _ (List.mem_cons_of_mem _ refill)
  | book call backoff closed pool holding booked =>
      rcases Pool.book_eq booked with ⟨id, bare, free, rfl⟩
      exact routed
  | commit call backoff closed flush stage batch pool holding resumed out
      free push running log committed =>
      rcases Pool.commit_eq committed with ⟨id, taken, rfl⟩
      exact routed
  | flush flusher batch pool locked idle booked committed =>
      rcases Pool.commit_eq committed with ⟨id, taken, rfl⟩
      exact routed
  | take pool taken =>
      rcases Pool.take_eq taken with ⟨slot, first, free, same⟩
      rw [same]
      exact routed
  | decide congested slot pool hand kept =>
      rcases Pool.keep_eq kept with ⟨found, first, rfl⟩
      intro other member
      simp only [List.append_assoc, List.mem_append, List.mem_singleton]
        at member
      rcases member with held | rfl | refill
      · exact routed other (List.mem_append_left _ held)
      · exact inspected other (Or.inr first)
      · exact routed other (List.mem_append_right _ refill)
  | collect slot taken pool took hand kept =>
      rcases Pool.take_eq took with ⟨found, first, free, same⟩
      rcases Pool.keep_eq kept with ⟨found, again, rfl⟩
      intro other member
      rw [same] at member again
      cases again
      simp only [List.append_assoc, List.mem_append, List.mem_singleton]
        at member
      rcases member with held | rfl | refill
      · exact routed other (List.mem_append_left _ held)
      · refine inspected other (Or.inl ?_)
        rw [first]
        exact List.mem_cons_self
      · exact routed other (List.mem_append_right _ refill)
  | put slot pool put =>
      rcases Pool.put_eq put with ⟨held, rfl⟩
      intro other member
      simp only [List.mem_append, List.mem_singleton] at member
      rcases member with held | refill | rfl
      · exact routed other
          (List.mem_append_left _ (List.mem_of_mem_erase held))
      · exact routed other (List.mem_append_right _ refill)
      · rw [clear_qos]
        exact routed slot (List.mem_append_left _ held)
  | _ => exact routed

/-! ## Recycled batches -/

/-- A push that has found a recycled batch still finds it. -/
def Recycled (queue : Queue) : Prop :=
  ∀ call, queue.lock = some (.push call .pop) → queue.pool.refill ≠ []

theorem Stepped.recycled (stepped : Stepped queue action after)
    (recycled : Recycled queue) : Recycled after := by
  intro other locked
  cases stepped with
  | enter call c backoff closed found point free idle => cases locked
  | quiet call backoff closed here there after holding goes inner =>
      rw [inner] at locked ⊢
      cases locked
      cases goes with
      | recycle free found => exact found
  | allocate call backoff closed holding free dry =>
      dsimp only at locked
      split at locked <;> cases locked
  | pop call backoff closed pool holding popped => cases locked
  | book call backoff closed pool holding booked => cases locked
  | commit call backoff closed flush stage batch pool holding resumed out
      free push running log committed => cases locked
  | update call backoff closed stage batch bytes push holding resumed kept
      booked running idle log => cases locked
  | broke call backoff closed stage batch push holding resumed kept booked
      running idle log => cases locked
  | close call backoff stage holding abandoned => cases locked
  | fail call backoff closed stage error flags holding abandoned flagged =>
      cases locked
  | unlock call backoff closed result holding => cases locked
  | expire call holding => cases locked
  | cancel call stage holding abandoned => cases locked
  | lock flusher free => cases locked
  | flush flusher batch pool holds idle booked committed =>
      rw [holds] at locked
      cases locked
  | release flusher holds => cases locked
  | take pool taken =>
      rcases Pool.take_eq taken with ⟨slot, first, free, same⟩
      rw [same]
      exact recycled other locked
  | decide congested slot pool hand kept =>
      rcases Pool.keep_eq kept with ⟨found, first, rfl⟩
      exact recycled other locked
  | collect slot taken pool took hand kept =>
      rcases Pool.take_eq took with ⟨found, first, free, same⟩
      rcases Pool.keep_eq kept with ⟨found, again, rfl⟩
      rw [same]
      exact recycled other locked
  | put slot pool put =>
      rcases Pool.put_eq put with ⟨held, rfl⟩
      exact List.append_ne_nil_of_right_ne_nil _ (List.cons_ne_nil _ _)
  | _ => exact recycled other locked

/-! ## Reachable queues -/

/-- What every step of a queue keeps. -/
structure Sound (p : Priority) (queue : Queue) : Prop where
  small : queue.stage.batchSize ≤ 65535
  called : Called p queue.calls
  traced : ∃ parts current, Traced p queue.stage parts current
  agree : Agree queue.pool queue.stage (inside queue.lock)
  filed : Filed queue
  logged : Logged queue.calls queue.stage queue.lock
  flagged : Flagged queue
  discarded : Discarded queue
  proper : Proper queue.stage
  routed : Routed p queue.pool
  recycled : Recycled queue

theorem sound_new (p : Priority) (capacity : Nat) {batchSize : Nat}
    (small : batchSize ≤ 65535) :
    Sound p (.new capacity batchSize) where
  small := small
  called c impossible := by
    cases impossible
  traced := ⟨[], [], traced_new p batchSize⟩
  agree := .unlocked (Pool.conserved_new capacity) rfl rfl rfl
  filed := rfl
  logged := logged_new batchSize
  flagged turn impossible := by
    cases impossible
  discarded departure impossible := by
    cases impossible
  proper entry impossible := by
    cases impossible
  routed slot impossible := by
    cases impossible
  recycled call impossible := by
    cases impossible

/-- Every batch that has been committed has its shares. -/
theorem Sound.holds (sound : Sound p queue) {batch : WriteBatch}
    (member : batch ∈ queue.departing) :
    ∃ shares, Holds p queue.stage batch shares := by
  rcases sound.traced with ⟨parts, current, traced⟩
  have filed : queue.stage.committed = queue.departing := sound.filed
  rw [← filed] at member
  rcases List.append_of_mem member with ⟨front, back, split⟩
  have committed := traced.committed
  rw [split] at committed
  rcases Merge.forall₂_split committed with ⟨_, shares, _, _, holds, _⟩
  exact ⟨shares, holds⟩

/-- Every batch in the ring or the hand of the puller has the priority. -/
theorem Sound.inspected (sound : Sound p queue) (slot : Slot)
    (place : slot ∈ queue.pool.ring ∨ queue.pool.hand = some slot) :
    slot.batch.qos.priority = p := by
  have member : slot.batch ∈ queue.departing := by
    unfold Queue.departing
    rcases place with ring | hand
    · exact List.mem_append_right _ (List.mem_map_of_mem ring)
    · apply List.mem_append_left
      apply List.mem_append_right
      rw [hand]
      exact List.mem_singleton_self _
  rcases sound.holds member with ⟨shares, holds⟩
  exact holds.priority_eq

/-- A step of a reachable queue is one of a few. -/
theorem Sound.stepped (sound : Sound p queue)
    (stepped : queue.step action = some after) :
    Stepped queue action after := by
  rcases sound.traced with ⟨parts, current, traced⟩
  exact step_stepped traced sound.agree stepped

theorem Sound.step (sound : Sound p queue) (at_ : action.At p)
    (stepped : queue.step action = some after) : Sound p after := by
  have does := sound.stepped stepped
  have stages := does.stage sound.called
  rcases sound.traced with ⟨parts, current, traced⟩
  exact
    { small := by
        rcases stages with same | ⟨act, _, moved⟩
        · rw [same]
          exact sound.small
        · rw [step_batchSize traced moved]
          exact sound.small
      called := does.called at_ sound.called
      traced := by
        rcases stages with same | ⟨act, within, moved⟩
        · rw [same]
          exact ⟨parts, current, traced⟩
        · exact step_traced traced sound.small within moved
      agree := does.agree sound.agree
      filed := does.filed sound.filed
      logged := does.logged sound.agree sound.logged
      flagged := does.flagged sound.agree sound.logged sound.flagged
      discarded := does.discarded sound.discarded
      proper := does.proper sound.agree sound.proper
      routed := does.routed sound.inspected sound.routed
      recycled := does.recycled sound.recycled }

/-! ## What the pushes have returned -/

/-- A push that has written its message has not returned an error yet. -/
def Call.Unfailed (c : Call) : Prop :=
  c.point = .inside ∨ c.point = .test ∨ c.point = .signal ∨
    c.point = .done (.ok ())

/--
The messages that have been written whole belong to one push each.  It is on
its way, or has returned `Ok`, or `Closed` when only its last notification has
failed.  Every push that has returned `Ok` has written its message.
-/
structure Vouched (queue : Queue) : Prop where
  written : ∀ turn entry, queue.stage.log[turn]? = some entry →
    entry.result = .ok () → ∃ (call : Nat) (c : Call),
      queue.calls[call]? = some c ∧ c.turn = some turn ∧
        c.msg = entry.msg ∧
          (c.Unfailed ∨ c.point = .done (.error .closed))
  returned : ∀ (call : Nat) (c : Call), queue.calls[call]? = some c →
    c.point = .done (.ok ()) → ∃ turn entry, c.turn = some turn ∧
      queue.stage.log[turn]? = some entry ∧ c.msg = entry.msg ∧
        entry.result = .ok ()
  single : ∀ (call other : Nat) (c d : Call) (turn : Nat),
    queue.calls[call]? = some c → queue.calls[other]? = some d →
      c.turn = some turn → d.turn = some turn → call = other

/-- The log has one entry of a push. -/
theorem Call.Ended.unique {c : Call} {log : List Finished}
    {result other : Except SendError Unit} (ended : c.Ended log result)
    (again : c.Ended log other) : result = other := by
  rcases ended with ⟨turn, entry, own, found, rfl⟩
  rcases again with ⟨turn', entry', own', found', rfl⟩
  rw [own] at own'
  cases own'
  rw [found] at found'
  cases found'
  rfl

/-- A push whose entry is `Ok` returns that, or `Closed`. -/
theorem Call.Told.unfailed {c : Call} {log : List Finished} {held : Prop}
    (told : c.Told log held) (ended : c.Ended log (.ok ())) :
    c.Unfailed ∨ c.point = .done (.error .closed) := by
  have turned : c.turn ≠ none := by
    rcases ended with ⟨turn, entry, own, _⟩
    rw [own]
    simp
  unfold Call.Told at told
  split at told
  · exact absurd told turned
  · exact absurd told turned
  · exact absurd told turned
  · rename_i inside
    exact Or.inl (Or.inl inside)
  · rename_i test
    exact Or.inl (Or.inr (Or.inl test))
  · rename_i signal
    exact Or.inl (Or.inr (Or.inr (Or.inl signal)))
  · rename_i done
    exact Or.inl (Or.inr (Or.inr (Or.inr done)))
  · rcases told with ⟨never, _⟩ | failed
    · exact absurd never turned
    · cases ended.unique failed
  · rename_i done
    rcases told with ⟨never, _⟩ | failed | ⟨rfl, _⟩
    · exact absurd never turned
    · cases ended.unique failed
    · exact Or.inr done
  · rcases told with never | failed
    · exact absurd never turned
    · cases ended.unique failed

/-- The push of an entry has its message. -/
theorem Logged.msg_eq {calls : List Call} {stage : Stage}
    {lock : Option Holder} (logged : Logged calls stage lock) {call : Nat}
    {c : Call} {turn : Nat} {entry : Finished}
    (found : calls[call]? = some c) (own : c.turn = some turn)
    (place : stage.log[turn]? = some entry) : c.msg = entry.msg := by
  have pushed : stage.pushes[turn]? = some (entry.msg, entry.qos) := by
    apply getElem?_later (List.prefix_append _ _)
    rw [List.getElem?_map, place]
    rfl
  rw [logged.called call c turn found own, Option.some.injEq,
    Prod.mk.injEq] at pushed
  exact pushed.1

/-- The pushes of a sound queue return what they have written. -/
theorem Sound.vouched (sound : Sound p queue) : Vouched queue where
  written turn entry place ok := by
    have early : turn < queue.stage.pushes.length := by
      have bound := (List.getElem?_eq_some_iff.1 place).1
      rw [Stage.pushes, List.length_append, List.length_map]
      omega
    rcases sound.logged.taken turn early with ⟨call, c, found, own⟩
    have ended : c.Ended queue.stage.log (.ok ()) :=
      ⟨turn, entry, own, place, ok⟩
    exact ⟨call, c, found, own, sound.logged.msg_eq found own place,
      (sound.logged.told call c found).unfailed ended⟩
  returned call c found done := by
    have told := sound.logged.told call c found
    rw [Call.Told, done] at told
    rcases told with ⟨turn, entry, own, place, ok⟩
    exact ⟨turn, entry, own, place, sound.logged.msg_eq found own place, ok⟩
  single := sound.logged.single

end Tx
end Thubo
