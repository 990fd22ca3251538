import Thubo.Pipeline.Coherence

/-!
# What a step does to a queue

A step of a queue whose parts agree is one of a few.  What the code does at a
point that no step reaches, such as a ring without room for a batch, is left
out here.
-/

namespace Thubo
namespace Tx

/-! ## Steps -/

/--
The push that holds the lock goes on, and only the lock, the backoff, the
flush bit and the refill event change.
-/
def Inner (queue : Queue) (call : Nat) (inside : Inside) (after : Queue) :
    Prop :=
  after =
    { queue with
      lock := some (.push call inside)
      bytes := after.bytes
      flush := after.flush
      canRefill := after.canRefill }

/-- Steps of the push that holds the lock that only change where it is. -/
inductive Quiet (queue : Queue) (backoff closed : Bool) :
    Inside → Inside → Prop where
  | reuse (booked : queue.pool.booked.isSome) :
      Quiet queue backoff closed .acquire .serialize
  | recycle (free : queue.pool.booked = none)
      (recycled : queue.pool.refill ≠ []) :
      Quiet queue backoff closed .acquire .pop
  | start : Quiet queue backoff closed .start .room
  | room : Quiet queue backoff closed .room .book
  | full (next : Stage)
      (stepped : queue.stage.step (.resume false) = .ok (some next))
      (out : next.booked = none) :
      Quiet queue backoff closed .serialize (.clear false)
  | pending (next : Stage)
      (stepped : queue.stage.step (.resume false) = .ok (some next))
      (booked : next.booked.isSome) (sent : next.Sent) :
      Quiet queue backoff closed .serialize .flush
  | due : Quiet queue backoff closed .flush (.clear true)
  | stays : Quiet queue backoff closed .flush .update
  | clear (flush : Bool) :
      Quiet queue backoff closed (.clear flush) (.commit flush)
  | tell (loud : backoff = false) : Quiet queue backoff closed .test .signal
  | untoldMore (quiet : backoff = true) (more : queue.stage.running.isSome) :
      Quiet queue backoff closed .test .acquire
  | untoldEnd (quiet : backoff = true) (idle : queue.stage.running = none) :
      Quiet queue backoff closed .test (.unlock (.ok false))
  | toldMore (open_ : closed = false) (more : queue.stage.running.isSome) :
      Quiet queue backoff closed .signal .acquire
  | toldEnd (open_ : closed = false) (idle : queue.stage.running = none) :
      Quiet queue backoff closed .signal (.unlock (.ok false))
  | closedEnd (shut : closed = true) (idle : queue.stage.running = none) :
      Quiet queue backoff closed .signal (.unlock (.error .closed))
  | woken : Quiet queue backoff closed .wait .acquire
  | asleep : Quiet queue backoff closed .wait .wait
  | lost : Quiet queue backoff closed .wait (.fail .dropped)

/-- Steps of a push that does not hold the lock. -/
inductive Walks (queue : Queue) (backoff closed : Bool) (call : Call) :
    Point → Point → Prop where
  | drop (congested : queue.congested)
      (control : call.qos.congestionControl = .drop) :
      Walks queue backoff closed call .entry (.done (.error .dropped))
  | enter : Walks queue backoff closed call .entry .tryLock
  | queue : Walks queue backoff closed call .tryLock .waitLock
  | untold (quiet : backoff = true) :
      Walks queue backoff closed call .test (.done (.ok ()))
  | tell (loud : backoff = false) :
      Walks queue backoff closed call .test .signal
  | told (open_ : closed = false) :
      Walks queue backoff closed call .signal (.done (.ok ()))
  | closed (shut : closed = true) :
      Walks queue backoff closed call .signal (.done (.error .closed))

/-- The push at a place holds the lock and is at a point. -/
structure Holding (queue : Queue) (call : Nat) (inside : Inside) :
    Prop where
  lock : queue.lock = some (.push call inside)
  point : ∃ c, queue.calls[call]? = some c ∧ c.point = .inside

/-- The entry of the log that a step has added says that a push fails. -/
structure Abandoned (stage after : Stage) (error : SendError) : Prop where
  booked : stage.booked = none
  ended : ∃ push, stage.running = some push ∧
    after = stage.finish push (.error error)

/-- What a step does to a queue whose parts agree. -/
inductive Stepped (queue : Queue) : Queue.Action → Queue → Prop where
  | call (msg : Bytes) (qos : QoS) (since : Since) :
      Stepped queue (.call msg qos since)
        { queue with
          calls := queue.calls ++ [⟨msg, qos, since, .entry, none⟩] }
  | walk (call : Nat) (c : Call) (backoff closed : Bool) (next : Point)
      (found : queue.calls[call]? = some c)
      (walks : Walks queue backoff closed c c.point next) :
      Stepped queue (.push call backoff closed) (queue.goTo call next)
  | congest (call : Nat) (c : Call) (backoff closed : Bool)
      (error : SendError) (found : queue.calls[call]? = some c)
      (point : c.point = .congest error) :
      Stepped queue (.push call backoff closed)
        ({ queue with congested := true }.goTo call (.done (.error error)))
  | enter (call : Nat) (c : Call) (backoff closed : Bool)
      (found : queue.calls[call]? = some c)
      (point : c.point = .tryLock ∨ c.point = .waitLock)
      (free : queue.lock = none) (idle : queue.stage.running = none) :
      Stepped queue (.push call backoff closed)
        { queue with
          stage :=
            { queue.stage with running := some ⟨c.msg, c.qos, .start⟩ }
          lock := some (.push call .acquire)
          calls := queue.calls.modify call fun c =>
            { c with
              point := .inside
              turn := some queue.stage.log.length } }
  | quiet (call : Nat) (backoff closed : Bool) (here there : Inside)
      (after : Queue) (holding : Holding queue call here)
      (goes : Quiet queue backoff closed here there)
      (inner : Inner queue call there after) :
      Stepped queue (.push call backoff closed) after
  | allocate (call : Nat) (backoff closed : Bool)
      (holding : Holding queue call .acquire)
      (free : queue.pool.booked = none)
      (dry : queue.pool.refill = []) :
      Stepped queue (.push call backoff closed)
        { queue with
          pool := queue.pool.allocate
          lock := some (.push call
            (if queue.pool.allocate.spare.isSome then .start else .wait)) }
  | pop (call : Nat) (backoff closed : Bool) (pool : Pool)
      (holding : Holding queue call .pop)
      (popped : queue.pool.popRefill = some pool) :
      Stepped queue (.push call backoff closed)
        { queue with pool := pool, lock := some (.push call .start) }
  | book (call : Nat) (backoff closed : Bool) (pool : Pool)
      (holding : Holding queue call .book)
      (booked : queue.pool.book = some pool) :
      Stepped queue (.push call backoff closed)
        { queue with pool := pool, lock := some (.push call .serialize) }
  | commit (call : Nat) (backoff closed flush : Bool) (stage : Stage)
      (batch : WriteBatch) (pool : Pool)
      (holding : Holding queue call (.commit flush))
      (stepped : queue.stage.step (.resume flush) = .ok (some stage))
      (out : stage.committed = queue.stage.committed ++ [batch])
      (free : stage.booked = none)
      (push : Push) (running : queue.stage.running = some push)
      (log : (stage.log = queue.stage.log ∧
          ∃ point, stage.running = some { push with point := point }) ∨
        (stage.running = none ∧ stage.log =
          queue.stage.log ++ [⟨push.msg, push.qos, .ok ()⟩]))
      (committed : queue.pool.commit batch = some pool) :
      Stepped queue (.push call backoff closed)
        { queue with
          stage := stage
          pool := pool
          lock := some (.push call .test) }
  | update (call : Nat) (backoff closed : Bool) (stage : Stage)
      (batch : WriteBatch) (bytes : Nat) (push : Push)
      (holding : Holding queue call .update)
      (stepped : queue.stage.step (.resume false) = .ok (some stage))
      (kept : stage.committed = queue.stage.committed)
      (booked : stage.booked = some batch)
      (running : queue.stage.running = some push)
      (idle : stage.running = none)
      (log : stage.log = queue.stage.log ++ [⟨push.msg, push.qos, .ok ()⟩]) :
      Stepped queue (.push call backoff closed)
        { queue with
          stage := stage
          bytes := bytes
          lock := some (.push call (.unlock (.ok true))) }
  | broke (call : Nat) (backoff closed : Bool) (stage : Stage)
      (batch : WriteBatch) (push : Push)
      (holding : Holding queue call .serialize)
      (stepped : queue.stage.step (.resume false) = .ok (some stage))
      (kept : stage.committed = queue.stage.committed)
      (booked : stage.booked = some batch)
      (running : queue.stage.running = some push)
      (idle : stage.running = none)
      (log : stage.log = queue.stage.log ++
        [⟨push.msg, push.qos, .error .encodingFailed⟩]) :
      Stepped queue (.push call backoff closed)
        { queue with
          stage := stage
          lock := some (.push call
            (.unlock (.error .encodingFailed))) }
  | close (call : Nat) (backoff : Bool) (stage : Stage)
      (holding : Holding queue call .signal)
      (abandoned : Abandoned queue.stage stage .closed) :
      Stepped queue (.push call backoff true)
        { queue with
          stage := stage
          lock := some (.push call (.unlock (.error .closed))) }
  | fail (call : Nat) (backoff closed : Bool) (stage : Stage)
      (error : SendError) (flags : List Nat)
      (holding : Holding queue call (.fail error))
      (abandoned : Abandoned queue.stage stage error)
      (flagged : flags = queue.flags ∨
        flags = queue.flags ++ [queue.stage.log.length]) :
      Stepped queue (.push call backoff closed)
        { queue with
          stage := stage
          flags := flags
          lock := some (.push call (.unlock (.error error))) }
  | unlock (call : Nat) (backoff closed : Bool)
      (result : Except SendError Bool)
      (holding : Holding queue call (.unlock result)) :
      Stepped queue (.push call backoff closed)
        ({ queue with lock := none }.goTo call (Queue.after result))
  | overtime (call : Nat) (c : Call)
      (found : queue.calls[call]? = some c) (point : c.point = .waitLock) :
      Stepped queue (.expire call) (queue.goTo call (.congest .timeout))
  | expire (call : Nat) (holding : Holding queue call .wait) :
      Stepped queue (.expire call)
        { queue with lock := some (.push call (.fail .timeout)) }
  | leave (call : Nat) (c : Call)
      (found : queue.calls[call]? = some c) (point : c.point = .waitLock) :
      Stepped queue (.cancel call) (queue.goTo call .gone)
  | cancel (call : Nat) (stage : Stage)
      (holding : Holding queue call .wait)
      (abandoned : Abandoned queue.stage stage .timeout) :
      Stepped queue (.cancel call)
        ({ queue with stage := stage, lock := none }.goTo call .gone)
  | lock (flusher : Flusher) (free : queue.lock = none) :
      Stepped queue (.lock flusher)
        { queue with lock := some (.flusher flusher) }
  | nothing (flusher : Flusher)
      (locked : queue.lock = some (.flusher flusher))
      (free : queue.pool.booked = none) :
      Stepped queue (.flush flusher) queue
  | flush (flusher : Flusher) (batch : WriteBatch) (pool : Pool)
      (locked : queue.lock = some (.flusher flusher))
      (idle : queue.stage.running = none)
      (booked : queue.stage.booked = some batch)
      (committed : queue.pool.commit batch = some pool) :
      Stepped queue (.flush flusher)
        { queue with stage := queue.stage.commit batch, pool := pool }
  | release (flusher : Flusher)
      (locked : queue.lock = some (.flusher flusher)) :
      Stepped queue (.release flusher) { queue with lock := none }
  | requestFlush :
      Stepped queue .requestFlush { queue with flush := true }
  | take (pool : Pool) (taken : queue.pool.take = some pool) :
      Stepped queue .take { queue with pool := pool }
  | uncongest :
      Stepped queue .uncongest { queue with congested := false }
  | decide (congested : Bool) (slot : Slot) (pool : Pool)
      (inspected : queue.pool.hand = some slot)
      (kept : queue.pool.keep = some pool) :
      Stepped queue (.decide congested)
        { queue with
          pool := pool
          left := queue.left ++
            [⟨slot, queue.fate congested slot.batch⟩] }
  | collect (slot : Slot) (taken pool : Pool)
      (took : queue.pool.take = some taken)
      (inspected : taken.hand = some slot)
      (kept : taken.keep = some pool) :
      Stepped queue .collect
        { queue with
          pool := pool
          left := queue.left ++ [⟨slot, .handedOut⟩] }
  | put (slot : Slot) (pool : Pool)
      (put : queue.pool.put slot = some pool) :
      Stepped queue (.put slot) { queue with pool := pool }
  | notifyRefill :
      Stepped queue .notifyRefill
        { queue with canRefill := queue.canRefill.set.2 }
  | failRefill :
      Stepped queue .failRefill
        { queue with canRefill := queue.canRefill.fail }

variable {p : Priority} {queue after : Queue}
variable {parts : List (List Share)} {current : List Share}

/-- A push that has a batch finds room in the ring. -/
theorem Agree.not_refuses
    (agree : Agree queue.pool queue.stage (some .room)) :
    queue.pool.refuses = false := by
  have carried := agree.spare
  have booked := agree.booked
  have fits := agree.fits .room rfl
  rw [fits.2] at booked
  cases spare : queue.pool.spare with
  | none =>
      rw [spare] at carried
      cases carried
  | some id =>
      have room := agree.conserved.ring_lt spare
      have unbooked : queue.pool.booked.isSome = false := booked
      rw [Pool.refuses, unbooked, Pool.isFull, Bool.false_or,
        beq_eq_false_iff_ne]
      omega

/-- A push that has no batch ends with an error. -/
theorem abandon_stepped {call : Nat} {error : SendError}
    (stepped : queue.abandon call error = some after) :
    ∃ stage, Abandoned queue.stage stage error ∧
      after =
        { queue with
          stage := stage
          lock := some (.push call (.unlock (.error error))) } := by
  unfold Queue.abandon at stepped
  split at stepped
  · rename_i stage ended
    cases stepped
    rcases step_abandon ended with ⟨push, running, booked, same⟩
    exact ⟨stage, ⟨booked, push, running, same⟩, rfl⟩
  · cases stepped

theorem acquire_stepped {call : Nat} {backoff closed : Bool}
    (holding : Holding queue call .acquire) :
    Stepped queue (.push call backoff closed) (queue.acquire call) := by
  unfold Queue.acquire
  split
  · rename_i booked
    exact .quiet call backoff closed .acquire .serialize _ holding
      (.reuse booked) rfl
  · rename_i free
    rw [Bool.not_eq_true, Option.isSome_eq_false_iff,
      Option.isNone_iff_eq_none] at free
    split
    · rename_i dry
      exact .allocate call backoff closed holding free
        (List.isEmpty_iff.1 dry)
    · rename_i recycled
      exact .quiet call backoff closed .acquire .pop _ holding
        (.recycle free (fun dry => recycled (List.isEmpty_iff.2 dry))) rfl

theorem serialize_stepped
    (traced : Traced p queue.stage parts current) {call : Nat}
    {backoff closed : Bool} (holding : Holding queue call .serialize)
    (stepped : queue.serialize call = some after) :
    Stepped queue (.push call backoff closed) after := by
  unfold Queue.serialize at stepped
  split at stepped
  · rename_i stage resumed
    rcases step_resumed traced resumed with ⟨push, running, did⟩
    cases did with
    | goesOn batch point committed booked later log size =>
        rw [booked] at stepped
        cases stepped
        exact .quiet call backoff closed _ _ _ holding
          (.full stage resumed booked) rfl
    | sent batch committed booked idle log size =>
        rw [booked] at stepped
        cases stepped
        exact .quiet call backoff closed _ _ _ holding
          (.full stage resumed booked) rfl
    | pending batch committed booked idle log size =>
        have last : stage.log.getLast? =
            some ⟨push.msg, push.qos, .ok ()⟩ := by
          rw [log, List.getLast?_concat]
        rw [booked, last] at stepped
        cases stepped
        refine .quiet call backoff closed _ _ _ holding
          (.pending stage resumed ?_ ⟨_, last, rfl⟩) rfl
        rw [booked]
        rfl
    | failed batch committed booked idle log size =>
        have last : stage.log.getLast? =
            some ⟨push.msg, push.qos, .error .encodingFailed⟩ := by
          rw [log, List.getLast?_concat]
        rw [booked, last] at stepped
        cases stepped
        exact .broke call backoff closed stage batch push holding resumed
          committed booked running idle log
  · cases stepped

theorem commit_stepped (traced : Traced p queue.stage parts current)
    {call : Nat} {flush backoff closed : Bool}
    (holding : Holding queue call (.commit flush))
    (stepped : queue.commit call flush = some after) :
    Stepped queue (.push call backoff closed) after := by
  unfold Queue.commit at stepped
  split at stepped
  · rename_i stage resumed
    rcases step_resumed traced resumed with ⟨push, running, did⟩
    cases did with
    | goesOn batch point committed booked later log size =>
        rw [booked, committed, List.getLast?_concat] at stepped
        dsimp only at stepped
        split at stepped
        · rename_i pool moved
          cases stepped
          exact .commit call backoff closed flush stage batch pool holding
            resumed committed booked push running
            (Or.inl ⟨log, point, later⟩) moved
        · cases stepped
    | sent batch committed booked idle log size =>
        rw [booked, committed, List.getLast?_concat] at stepped
        dsimp only at stepped
        split at stepped
        · rename_i pool moved
          cases stepped
          exact .commit call backoff closed flush stage batch pool holding
            resumed committed booked push running
            (Or.inr ⟨idle, log⟩) moved
        · cases stepped
    | pending batch committed booked idle log size =>
        rw [booked] at stepped
        cases stepped
    | failed batch committed booked idle log size =>
        rw [booked] at stepped
        cases stepped
  · cases stepped

theorem update_stepped (traced : Traced p queue.stage parts current)
    (agree : Agree queue.pool queue.stage (some .update)) {call : Nat}
    {backoff closed : Bool} (holding : Holding queue call .update)
    (stepped : queue.update call = some after) :
    Stepped queue (.push call backoff closed) after := by
  rcases agree.fits .update rfl with ⟨next, will, _, entry, last, ok⟩
  unfold Queue.update at stepped
  split at stepped
  · rename_i stage resumed
    rw [resumed] at will
    cases will
    rcases step_resumed traced resumed with ⟨push, running, did⟩
    cases did with
    | goesOn batch point committed booked later log size =>
        rw [booked] at stepped
        cases stepped
    | sent batch committed booked idle log size =>
        rw [booked] at stepped
        cases stepped
    | pending batch committed booked idle log size =>
        rw [booked] at stepped
        cases stepped
        exact .update call backoff closed _ batch _ push holding
          resumed committed booked running idle log
    | failed batch committed booked idle log size =>
        rw [log, List.getLast?_concat] at last
        cases last
        cases ok
  · cases stepped

theorem goOn_stepped {call : Nat} {backoff closed : Bool} {here : Inside}
    (holding : Holding queue call here)
    (more : queue.stage.running.isSome →
      Quiet queue backoff closed here .acquire)
    (ended : queue.stage.running = none →
      Quiet queue backoff closed here (.unlock (.ok false))) :
    Stepped queue (.push call backoff closed) (queue.goOn call) := by
  unfold Queue.goOn
  split
  · rename_i running
    exact .quiet call backoff closed here _ _ holding (more running) rfl
  · rename_i idle
    rw [Bool.not_eq_true, Option.isSome_eq_false_iff,
      Option.isNone_iff_eq_none] at idle
    exact .quiet call backoff closed here _ _ holding (ended idle) rfl

theorem signal_stepped {call : Nat} {backoff closed : Bool}
    (holding : Holding queue call .signal)
    (stepped : (if closed then queue.close call
      else some (queue.goOn call)) = some after) :
    Stepped queue (.push call backoff closed) after := by
  cases closed with
  | true =>
      rw [if_pos rfl] at stepped
      unfold Queue.close at stepped
      split at stepped
      · rcases abandon_stepped stepped with ⟨stage, abandoned, rfl⟩
        exact .close call backoff stage holding abandoned
      · rename_i idle
        rw [Bool.not_eq_true, Option.isSome_eq_false_iff,
          Option.isNone_iff_eq_none] at idle
        cases stepped
        exact .quiet call backoff true _ _ _ holding
          (.closedEnd rfl idle) rfl
  | false =>
      cases stepped
      exact goOn_stepped holding (.toldMore rfl) (.toldEnd rfl)

theorem wait_stepped {call : Nat} {backoff closed : Bool}
    (holding : Holding queue call .wait)
    (stepped : queue.insideStep call backoff closed .wait = some after) :
    Stepped queue (.push call backoff closed) after := by
  unfold Queue.insideStep at stepped
  cases found : queue.canRefill.check.1 with
  | ok =>
      simp only [found] at stepped
      cases stepped
      exact .quiet call backoff closed _ .acquire _ holding .woken rfl
  | unset =>
      simp only [found] at stepped
      cases stepped
      exact .quiet call backoff closed _ .wait _ holding .asleep rfl
  | err =>
      simp only [found] at stepped
      cases stepped
      exact .quiet call backoff closed _ (.fail .dropped) _ holding .lost
        rfl

theorem fail_stepped {call : Nat} {backoff closed : Bool}
    {error : SendError} (holding : Holding queue call (.fail error))
    (stepped : queue.fail call error = some after) :
    Stepped queue (.push call backoff closed) after := by
  unfold Queue.fail at stepped
  dsimp only at stepped
  rcases abandon_stepped stepped with ⟨stage, abandoned, rfl⟩
  refine .fail call backoff closed stage error _ holding abandoned ?_
  dsimp only
  split
  · exact Or.inr rfl
  · exact Or.inl rfl

/-- What the push that holds the lock does. -/
theorem insideStep_stepped (traced : Traced p queue.stage parts current)
    {call : Nat} {backoff closed : Bool} {here : Inside}
    (agree : Agree queue.pool queue.stage (some here))
    (holding : Holding queue call here)
    (stepped : queue.insideStep call backoff closed here = some after) :
    Stepped queue (.push call backoff closed) after := by
  cases here with
  | acquire =>
      cases stepped
      exact acquire_stepped holding
  | pop =>
      simp only [Queue.insideStep] at stepped
      split at stepped
      · rename_i pool popped
        cases stepped
        exact .pop call backoff closed pool holding popped
      · cases stepped
  | start =>
      cases stepped
      exact .quiet call backoff closed _ _ _ holding .start rfl
  | room =>
      simp only [Queue.insideStep, agree.not_refuses] at stepped
      cases stepped
      exact .quiet call backoff closed _ _ _ holding .room rfl
  | book =>
      simp only [Queue.insideStep] at stepped
      split at stepped
      · rename_i pool booked
        cases stepped
        exact .book call backoff closed pool holding booked
      · cases stepped
  | serialize => exact serialize_stepped traced holding stepped
  | flush =>
      cases stepped
      cases due : queue.flush with
      | true => exact .quiet call backoff closed _ _ _ holding .due rfl
      | false => exact .quiet call backoff closed _ _ _ holding .stays rfl
  | clear flush =>
      cases stepped
      exact .quiet call backoff closed _ _ _ holding (.clear flush) rfl
  | commit flush => exact commit_stepped traced holding stepped
  | test =>
      simp only [Queue.insideStep] at stepped
      cases backoff with
      | true =>
          cases stepped
          exact goOn_stepped holding (.untoldMore rfl) (.untoldEnd rfl)
      | false =>
          cases stepped
          exact .quiet call false closed _ _ _ holding (.tell rfl) rfl
  | signal => exact signal_stepped holding stepped
  | update => exact update_stepped traced agree holding stepped
  | wait => exact wait_stepped holding stepped
  | fail error => exact fail_stepped holding stepped
  | unlock result =>
      cases stepped
      exact .unlock call backoff closed result holding

/-! ## Every step -/

/-- A push that takes the lock. -/
theorem enter_stepped {call : Nat} {c : Call} {backoff closed : Bool}
    (found : queue.calls[call]? = some c)
    (point : c.point = .tryLock ∨ c.point = .waitLock)
    (free : queue.lock = none)
    (stepped : queue.enter call c = some after) :
    Stepped queue (.push call backoff closed) after := by
  unfold Queue.enter at stepped
  split at stepped
  · rename_i stage began
    rcases step_begin began with ⟨idle, rfl⟩
    cases stepped
    exact .enter call c backoff closed found point free idle
  · cases stepped

/-- What a push does. -/
theorem pushStep_stepped (traced : Traced p queue.stage parts current)
    (agree : Agree queue.pool queue.stage (inside queue.lock))
    {call : Nat} {backoff closed : Bool}
    (stepped : queue.pushStep call backoff closed = some after) :
    Stepped queue (.push call backoff closed) after := by
  unfold Queue.pushStep at stepped
  cases found : queue.calls[call]? with
  | none =>
      rw [found] at stepped
      cases stepped
  | some c =>
      rw [found] at stepped
      dsimp only at stepped
      have walk : ∀ next, Walks queue backoff closed c c.point next →
          Stepped queue (.push call backoff closed)
            (queue.goTo call next) :=
        fun next walks => .walk call c backoff closed next found walks
      cases point : c.point with
      | entry =>
          rw [point] at stepped walk
          dsimp only at stepped
          split at stepped
          · rename_i dropped
            cases stepped
            exact walk _ (.drop dropped.2 dropped.1)
          · cases stepped
            exact walk _ .enter
      | tryLock =>
          rw [point] at stepped walk
          dsimp only at stepped
          split at stepped
          · rename_i free
            exact enter_stepped found (Or.inl point)
              (Option.isNone_iff_eq_none.1 free) stepped
          · cases stepped
            exact walk _ .queue
      | waitLock =>
          rw [point] at stepped
          dsimp only at stepped
          split at stepped
          · rename_i free
            exact enter_stepped found (Or.inr point)
              (Option.isNone_iff_eq_none.1 free) stepped
          · cases stepped
      | inside =>
          rw [point] at stepped
          dsimp only at stepped
          split at stepped
          · rename_i holder here locked
            split at stepped
            · rename_i same
              cases same
              rw [locked] at agree
              exact insideStep_stepped traced agree
                ⟨locked, c, found, point⟩ stepped
            · cases stepped
          · cases stepped
      | test =>
          rw [point] at stepped walk
          cases stepped
          cases backoff with
          | true => exact walk _ (.untold rfl)
          | false => exact walk _ (.tell rfl)
      | signal =>
          rw [point] at stepped walk
          cases stepped
          cases closed with
          | true => exact walk _ (.closed rfl)
          | false => exact walk _ (.told rfl)
      | congest error =>
          rw [point] at stepped
          cases stepped
          exact .congest call c backoff closed error found point
      | done result =>
          rw [point] at stepped
          cases stepped
      | gone =>
          rw [point] at stepped
          cases stepped

theorem expire_stepped {call : Nat}
    (stepped : queue.expire call = some after) :
    Stepped queue (.expire call) after := by
  unfold Queue.expire at stepped
  split at stepped
  · rename_i msg qos since turn found
    cases stepped
    exact .overtime call _ found rfl
  · rename_i msg qos since turn found
    split at stepped
    · rename_i holder locked
      split at stepped
      · rename_i same
        cases same
        cases stepped
        exact .expire call ⟨locked, _, found, rfl⟩
      · cases stepped
    · cases stepped
  · cases stepped

theorem cancel_stepped {call : Nat}
    (stepped : queue.cancel call = some after) :
    Stepped queue (.cancel call) after := by
  unfold Queue.cancel at stepped
  split at stepped
  · rename_i msg qos since turn found
    cases stepped
    exact .leave call _ found rfl
  · rename_i msg qos since turn found
    split at stepped
    · rename_i holder locked
      split at stepped
      · rename_i same
        cases same
        split at stepped
        · rename_i stage ended
          cases stepped
          rcases step_abandon ended with ⟨push, running, booked, after⟩
          exact .cancel call stage ⟨locked, _, found, rfl⟩
            ⟨booked, push, running, after⟩
        · cases stepped
      · cases stepped
    · cases stepped
  · cases stepped

theorem flushBy_stepped {flusher : Flusher}
    (stepped : queue.flushBy flusher = some after) :
    Stepped queue (.flush flusher) after := by
  unfold Queue.flushBy at stepped
  split at stepped
  · rename_i holder locked
    split at stepped
    · rename_i same
      cases same
      split at stepped
      · rename_i free
        cases stepped
        exact .nothing flusher locked (Option.isNone_iff_eq_none.1 free)
      · split at stepped
        · rename_i stage flushed
          rcases step_flush flushed with ⟨batch, idle, booked, rfl⟩
          simp only [Stage.commit, List.getLast?_concat] at stepped
          split at stepped
          · rename_i pool committed
            cases stepped
            exact .flush flusher batch pool locked idle booked committed
          · cases stepped
        · cases stepped
    · cases stepped
  · cases stepped

theorem depart_stepped {fate : WriteBatch → Fate}
    (stepped : queue.depart fate = some after) :
    ∃ slot pool, queue.pool.hand = some slot ∧
      queue.pool.keep = some pool ∧
      after =
        { queue with
          pool := pool
          left := queue.left ++ [⟨slot, fate slot.batch⟩] } := by
  unfold Queue.depart at stepped
  split at stepped
  · rename_i slot inspected
    split at stepped
    · rename_i pool kept
      cases stepped
      exact ⟨slot, pool, inspected, kept, rfl⟩
    · cases stepped
  · cases stepped

/-- A step of a queue whose parts agree. -/
theorem step_stepped (traced : Traced p queue.stage parts current)
    (agree : Agree queue.pool queue.stage (inside queue.lock))
    {action : Queue.Action} (stepped : queue.step action = some after) :
    Stepped queue action after := by
  cases action with
  | call msg qos since =>
      cases stepped
      exact .call msg qos since
  | push call backoff closed => exact pushStep_stepped traced agree stepped
  | expire call => exact expire_stepped stepped
  | cancel call => exact cancel_stepped stepped
  | lock flusher =>
      simp only [Queue.step, Queue.lockBy] at stepped
      split at stepped
      · rename_i free
        cases stepped
        exact .lock flusher free
      · cases stepped
  | flush flusher => exact flushBy_stepped stepped
  | release flusher =>
      simp only [Queue.step, Queue.releaseBy] at stepped
      split at stepped
      · rename_i holder locked
        split at stepped
        · rename_i same
          cases same
          cases stepped
          exact .release flusher locked
        · cases stepped
      · cases stepped
  | requestFlush =>
      cases stepped
      exact .requestFlush
  | take =>
      simp only [Queue.step, Queue.take] at stepped
      split at stepped
      · rename_i pool taken
        cases stepped
        exact .take pool taken
      · cases stepped
  | uncongest =>
      cases stepped
      exact .uncongest
  | decide congested =>
      rcases depart_stepped stepped with ⟨slot, pool, inspected, kept, rfl⟩
      exact .decide congested slot pool inspected kept
  | collect =>
      simp only [Queue.step, Queue.collect, Queue.take] at stepped
      split at stepped
      · rename_i taken found
        split at found
        · rename_i pool took
          cases found
          rcases depart_stepped stepped with
            ⟨slot, last, inspected, kept, rfl⟩
          exact .collect slot pool last took inspected kept
        · cases found
      · cases stepped
  | put slot =>
      simp only [Queue.step, Queue.put] at stepped
      split at stepped
      · rename_i pool put
        cases stepped
        exact .put slot pool put
      · cases stepped
  | reject slot =>
      simp only [Queue.step, Queue.reject,
        agree.conserved.reject_eq_none] at stepped
      cases stepped
  | notifyRefill =>
      cases stepped
      exact .notifyRefill
  | failRefill =>
      cases stepped
      exact .failRefill

end Tx
end Thubo
