import Thubo.Pipeline.Stepped

/-!
# What every step of a queue keeps

The parts of a queue agree after every step, the batches that left the ring
did so in the order in which they were committed, and what a push returns is
what has become of its message.
-/

namespace Thubo
namespace Tx

variable {p : Priority} {queue after : Queue} {action : Queue.Action}

/-! ## The pool, the stage and the lock -/

section

variable {pool next : Pool} {stage later : Stage}

/-- The push that holds the lock goes on with the same batch. -/
theorem Agree.go {here there : Inside}
    (agree : Agree pool stage (some here))
    (carries : there.carries = here.carries)
    (writes : there.writes = here.writes) (fits : Fits stage there) :
    Agree pool stage (some there) where
  conserved := agree.conserved
  spare := by
    rw [agree.spare, Option.any_some, Option.any_some, carries]
  booked := by
    rw [agree.booked, Option.any_some, Option.any_some, writes]
  fits point same := by
    cases same
    exact fits
  idle impossible := by
    cases impossible

theorem Agree.quiet {backoff closed : Bool} {here there : Inside}
    (agree : Agree queue.pool queue.stage (some here))
    (goes : Quiet queue backoff closed here there) :
    Agree queue.pool queue.stage (some there) := by
  have fits := agree.fits here rfl
  cases goes with
  | reuse booked =>
      refine ⟨agree.conserved, agree.spare, ?_, ?_, ?_⟩
      · rw [booked]
        simp [Inside.writes]
      · intro point same
        cases same
        exact fits
      · intro impossible
        cases impossible
  | recycle free recycled =>
      have booked := agree.booked
      rw [free] at booked
      have unbooked : queue.stage.booked = none := by
        cases isBooked : queue.stage.booked with
        | none => rfl
        | some batch =>
            rw [isBooked] at booked
            cases booked
      exact agree.go rfl rfl ⟨fits, unbooked⟩
  | start => exact agree.go rfl rfl fits
  | room => exact agree.go rfl rfl fits
  | full later stepped out => exact agree.go rfl rfl ⟨later, stepped, out⟩
  | pending later stepped booked sent =>
      exact agree.go rfl rfl ⟨later, stepped, booked, sent⟩
  | due =>
      rcases fits with ⟨later, stepped, booked, sent⟩
      exact agree.go rfl rfl (step_flush_due stepped booked sent)
  | stays => exact agree.go rfl rfl fits
  | clear flush => exact agree.go rfl rfl fits
  | tell loud => exact agree.go rfl rfl fits
  | untoldMore quiet more => exact agree.go rfl rfl more
  | untoldEnd quiet idle =>
      exact agree.go rfl rfl ⟨idle, fits.2 idle⟩
  | toldMore open_ more => exact agree.go rfl rfl more
  | toldEnd open_ idle => exact agree.go rfl rfl ⟨idle, fits.2 idle⟩
  | closedEnd shut idle =>
      exact agree.go rfl rfl ⟨idle, Or.inr ⟨rfl, fits.2 idle⟩⟩
  | woken => exact agree.go rfl rfl fits.1
  | asleep => exact agree
  | lost => exact agree.go rfl rfl ⟨fits.1, fits.2, Or.inl rfl⟩

/-- The lock is free, held by a flusher or taken over by one. -/
theorem Agree.unlocked (conserved : pool.Conserved)
    (spare : pool.spare = none)
    (booked : pool.booked.isSome = stage.booked.isSome)
    (idle : stage.running = none) : Agree pool stage none where
  conserved := conserved
  spare := by
    rw [spare]
    rfl
  booked := by
    rw [booked, Option.any_none, Bool.or_false]
  fits point impossible := by
    cases impossible
  idle _ := idle

/-- The push that holds the lock is at a point without a batch of its own. -/
theorem Agree.at {there : Inside} (conserved : pool.Conserved)
    (spare : pool.spare.isSome = there.carries)
    (booked : pool.booked.isSome =
      (stage.booked.isSome || there.writes))
    (fits : Fits stage there) : Agree pool stage (some there) where
  conserved := conserved
  spare := spare
  booked := booked
  fits point same := by
    cases same
    exact fits
  idle impossible := by
    cases impossible

/-- No batch is on its way to be booked. -/
theorem Agree.spare_none {here : Option Inside}
    (agree : Agree pool stage here)
    (bare : here.any Inside.carries = false) : pool.spare = none := by
  have spare := agree.spare
  rw [bare, Option.isSome_eq_false_iff] at spare
  exact Option.isNone_iff_eq_none.1 spare

/-- The stage has a batch booked exactly when the ring has. -/
theorem Agree.booked_eq {here : Option Inside}
    (agree : Agree pool stage here)
    (bare : here.any Inside.writes = false) :
    pool.booked.isSome = stage.booked.isSome := by
  rw [agree.booked, bare, Bool.or_false]

/-- The same batches in other places. -/
theorem Agree.shift {here : Option Inside} (agree : Agree pool stage here)
    (conserved : next.Conserved) (spare : next.spare = pool.spare)
    (booked : next.booked = pool.booked) : Agree next stage here where
  conserved := conserved
  spare := by
    rw [spare]
    exact agree.spare
  booked := by
    rw [booked]
    exact agree.booked
  fits := agree.fits
  idle := agree.idle

end

/-- A push without a batch ends with an error. -/
theorem Agree.abandoned {pool : Pool} {stage later : Stage}
    {here : Inside} {error : SendError}
    (agree : Agree pool stage (some here)) (carries : here.carries = false)
    (writes : here.writes = false)
    (abandoned : Abandoned stage later error) :
    pool.spare = none ∧ pool.booked.isSome = later.booked.isSome ∧
      later.running = none ∧
      ∃ entry, later.log.getLast? = some entry ∧
        entry.result = .error error := by
  rcases abandoned.ended with ⟨push, running, rfl⟩
  refine ⟨agree.spare_none carries, agree.booked_eq writes, rfl, _,
    List.getLast?_concat, rfl⟩

/-- The ring has a new batch, or there is none left. -/
theorem allocate_spare (pool : Pool) :
    pool.allocate.spare.isSome =
      (if pool.allocate.spare.isSome then Inside.start
        else Inside.wait).carries := by
  cases pool.allocate.spare <;> rfl

theorem allocate_booked (pool : Pool) :
    pool.allocate.booked = pool.booked := by
  unfold Pool.allocate
  split <;> rfl

/-- The parts of a queue agree after a step. -/
theorem Stepped.agree (stepped : Stepped queue action after)
    (agree : Agree queue.pool queue.stage (inside queue.lock)) :
    Agree after.pool after.stage (inside after.lock) := by
  cases stepped with
  | call msg qos since => exact agree
  | walk call c backoff closed next found walks => exact agree
  | congest call c backoff closed error found point => exact agree
  | enter call c backoff closed found point free idle =>
      rw [free] at agree
      exact .at agree.conserved
        (by rw [agree.spare_none rfl]; rfl)
        (by rw [agree.booked_eq rfl]; simp [Inside.writes]) rfl
  | quiet call backoff closed here there after holding goes inner =>
      rw [holding.lock] at agree
      rw [inner]
      exact agree.quiet goes
  | allocate call backoff closed holding free dry =>
      rw [holding.lock] at agree
      have unbooked := agree.booked_eq rfl
      rw [free] at unbooked
      have nothing : queue.stage.booked = none := by
        rw [← Option.isNone_iff_eq_none, ← Option.isSome_eq_false_iff,
          ← unbooked]
        rfl
      have running := agree.fits .acquire rfl
      refine .at agree.conserved.allocate (allocate_spare _) ?_ ?_
      · rw [allocate_booked, free, nothing]
        split <;> rfl
      · split
        · exact ⟨running, nothing⟩
        · exact ⟨running, nothing⟩
  | pop call backoff closed pool holding popped =>
      rw [holding.lock] at agree
      rcases Pool.popRefill_eq popped with ⟨slot, first, bare, same⟩
      refine .at (agree.conserved.popRefill popped) ?_ ?_
        (agree.fits .pop rfl)
      · rw [same]
        rfl
      · rw [same]
        exact agree.booked
  | book call backoff closed pool holding booked =>
      rw [holding.lock] at agree
      rcases Pool.book_eq booked with ⟨id, bare, free, same⟩
      refine .at (agree.conserved.book booked) ?_ ?_
        (agree.fits .book rfl).1
      · rw [same]
        rfl
      · rw [same]
        simp [Inside.writes]
  | commit call backoff closed flush stage batch pool holding resumed out
      free push running log committed =>
      rw [holding.lock] at agree
      rcases Pool.commit_eq committed with ⟨id, taken, same⟩
      refine .at (agree.conserved.commit committed) ?_ ?_ ⟨free, ?_⟩
      · rw [same]
        exact agree.spare
      · rw [same, free]
        rfl
      · intro idle
        rcases log with ⟨_, point, more⟩ | ⟨_, ended⟩
        · rw [idle] at more
          cases more
        · exact ⟨_, by rw [ended, List.getLast?_concat], rfl⟩
  | update call backoff closed stage batch bytes push holding resumed kept
      booked running idle log =>
      rw [holding.lock] at agree
      refine .at agree.conserved agree.spare ?_ ⟨idle, ?_⟩
      · rw [agree.booked, booked]
        simp [Inside.writes]
      · exact ⟨_, by rw [log, List.getLast?_concat], rfl⟩
  | broke call backoff closed stage batch push holding resumed kept booked
      running idle log =>
      rw [holding.lock] at agree
      refine .at agree.conserved agree.spare ?_ ⟨idle, Or.inl ?_⟩
      · rw [agree.booked, booked]
        simp [Inside.writes]
      · exact ⟨_, by rw [log, List.getLast?_concat], rfl⟩
  | close call backoff stage holding abandoned =>
      rw [holding.lock] at agree
      rcases agree.abandoned rfl rfl abandoned with
        ⟨bare, booked, idle, last⟩
      refine .at agree.conserved ?_ ?_ ⟨idle, Or.inl last⟩
      · rw [bare]
        rfl
      · rw [booked]
        simp [Inside.writes]
  | fail call backoff closed stage error flags holding abandoned flagged =>
      rw [holding.lock] at agree
      rcases agree.abandoned rfl rfl abandoned with
        ⟨bare, booked, idle, last⟩
      refine .at agree.conserved ?_ ?_ ⟨idle, Or.inl last⟩
      · rw [bare]
        rfl
      · rw [booked]
        simp [Inside.writes]
  | unlock call backoff closed result holding =>
      rw [holding.lock] at agree
      exact .unlocked agree.conserved (agree.spare_none rfl)
        (agree.booked_eq rfl) (agree.fits _ rfl).1
  | overtime call c found point => exact agree
  | expire call holding =>
      rw [holding.lock] at agree
      have fits := agree.fits .wait rfl
      exact agree.go rfl rfl ⟨fits.1, fits.2, Or.inr rfl⟩
  | leave call c found point => exact agree
  | cancel call stage holding abandoned =>
      rw [holding.lock] at agree
      rcases agree.abandoned rfl rfl abandoned with
        ⟨bare, booked, idle, last⟩
      exact .unlocked agree.conserved bare booked idle
  | lock flusher free =>
      rw [free] at agree
      exact agree
  | nothing flusher locked free => exact agree
  | flush flusher batch pool locked idle booked committed =>
      rw [locked] at agree
      rcases Pool.commit_eq committed with ⟨id, taken, same⟩
      have bare := agree.spare_none rfl
      change Agree pool _ (inside queue.lock)
      rw [locked]
      refine .unlocked (agree.conserved.commit committed) ?_ ?_ idle
      · rw [same]
        exact bare
      · rw [same]
        rfl
  | release flusher locked =>
      rw [locked] at agree
      exact agree
  | requestFlush => exact agree
  | take pool taken =>
      rcases Pool.take_eq taken with ⟨_, _, _, same⟩
      exact agree.shift (agree.conserved.take taken) (by rw [same])
        (by rw [same])
  | uncongest => exact agree
  | decide congested slot pool inspected kept =>
      rcases Pool.keep_eq kept with ⟨_, _, same⟩
      exact agree.shift (agree.conserved.keep kept) (by rw [same])
        (by rw [same])
  | collect slot taken pool took inspected kept =>
      rcases Pool.take_eq took with ⟨_, _, _, same⟩
      rcases Pool.keep_eq kept with ⟨_, _, later⟩
      exact agree.shift ((agree.conserved.take took).keep kept)
        (by rw [later, same]) (by rw [later, same])
  | put slot pool put =>
      rcases Pool.put_eq put with ⟨_, same⟩
      exact agree.shift (agree.conserved.put put) (by rw [same])
        (by rw [same])
  | notifyRefill => exact agree
  | failRefill => exact agree

/-! ## The batches in the order in which they were committed -/

/-- The batches that have left the ring, then those in it. -/
def Queue.departing (queue : Queue) : List WriteBatch :=
  queue.left.map (fun departure => departure.slot.batch) ++
    queue.pool.hand.toList.map Slot.batch ++ queue.pool.ring.map Slot.batch

/-- The batches leave in the order in which they were committed. -/
def Filed (queue : Queue) : Prop :=
  queue.stage.committed = queue.departing

/-- A batch is committed to the ring and to the stage. -/
theorem Filed.commit (filed : Filed queue) {batch : WriteBatch}
    {pool : Pool} (committed : queue.pool.commit batch = some pool)
    (pooled : after.pool = pool)
    (out : after.stage.committed = queue.stage.committed ++ [batch])
    (left : after.left = queue.left) : Filed after := by
  rcases Pool.commit_eq committed with ⟨id, taken, rfl⟩
  have before : queue.stage.committed = queue.departing := filed
  rw [Filed, out, before, Queue.departing, Queue.departing, pooled, left]
  simp

/-- A batch is on its way out of the ring. -/
theorem Filed.shift (filed : Filed queue)
    (stage : after.stage.committed = queue.stage.committed)
    (departing : after.departing = queue.departing) : Filed after := by
  have before : queue.stage.committed = queue.departing := filed
  rw [Filed, stage, departing, before]

/-- The committed batches stay in order. -/
theorem Stepped.filed (stepped : Stepped queue action after)
    (filed : Filed queue) : Filed after := by
  cases stepped with
  | call msg qos since => exact filed
  | walk call c backoff closed next found walks => exact filed
  | congest call c backoff closed error found point => exact filed
  | enter call c backoff closed found point free idle => exact filed
  | quiet call backoff closed here there after holding goes inner =>
      rw [inner]
      exact filed
  | allocate call backoff closed holding free dry =>
      refine filed.shift rfl ?_
      simp only [Queue.departing, Pool.allocate]
      split <;> rfl
  | pop call backoff closed pool holding popped =>
      rcases Pool.popRefill_eq popped with ⟨slot, first, bare, same⟩
      refine filed.shift rfl ?_
      simp only [Queue.departing]
      rw [same]
  | book call backoff closed pool holding booked =>
      rcases Pool.book_eq booked with ⟨id, bare, free, rfl⟩
      exact filed.shift rfl rfl
  | commit call backoff closed flush stage batch pool holding resumed out
      free push running log committed =>
      exact filed.commit committed rfl out rfl
  | update call backoff closed stage batch bytes push holding resumed kept
      booked running idle log => exact filed.shift kept rfl
  | broke call backoff closed stage batch push holding resumed kept booked
      running idle log => exact filed.shift kept rfl
  | close call backoff stage holding abandoned =>
      rcases abandoned.ended with ⟨push, running, rfl⟩
      exact filed
  | fail call backoff closed stage error flags holding abandoned flagged =>
      rcases abandoned.ended with ⟨push, running, rfl⟩
      exact filed
  | unlock call backoff closed result holding => exact filed
  | overtime call c found point => exact filed
  | expire call holding => exact filed
  | leave call c found point => exact filed
  | cancel call stage holding abandoned =>
      rcases abandoned.ended with ⟨push, running, rfl⟩
      exact filed
  | lock flusher free => exact filed
  | nothing flusher locked free => exact filed
  | flush flusher batch pool locked idle booked committed =>
      exact filed.commit committed rfl rfl rfl
  | release flusher locked => exact filed
  | requestFlush => exact filed
  | take pool taken =>
      rcases Pool.take_eq taken with ⟨slot, first, free, same⟩
      refine filed.shift rfl ?_
      simp only [Queue.departing]
      rw [same, first, free]
      simp
  | uncongest => exact filed
  | decide congested slot pool inspected kept =>
      rcases Pool.keep_eq kept with ⟨found, first, rfl⟩
      rw [inspected] at first
      cases first
      refine filed.shift rfl ?_
      simp [Queue.departing, inspected]
  | collect slot taken pool took inspected kept =>
      rcases Pool.take_eq took with ⟨found, first, free, same⟩
      rcases Pool.keep_eq kept with ⟨kept, hand, rfl⟩
      rw [inspected] at hand
      cases hand
      rw [same] at inspected
      cases inspected
      refine filed.shift rfl ?_
      simp only [Queue.departing]
      rw [same, first, free]
      simp
  | put slot pool put =>
      rcases Pool.put_eq put with ⟨held, rfl⟩
      exact filed.shift rfl rfl
  | notifyRefill => exact filed
  | failRefill => exact filed

/-! ## The stage -/

/-- Every call is one of the priority. -/
def Called (p : Priority) (calls : List Call) : Prop :=
  ∀ c ∈ calls, c.qos.priority = p ∧ c.msg.len < 2 ^ 64

/-- A push that ends without a batch is a step of the stage. -/
theorem Abandoned.step {stage later : Stage} {error : SendError}
    (abandoned : Abandoned stage later error) :
    stage.step (.abandon error) = .ok (some later) := by
  rcases abandoned.ended with ⟨push, running, rfl⟩
  simp only [Stage.step, running, abandoned.booked]
  rfl

/-- The stage stays or takes a step of its own. -/
theorem Stepped.stage (stepped : Stepped queue action after)
    (called : Called p queue.calls) :
    after.stage = queue.stage ∨
      ∃ act : Stage.Action, act.At p ∧
        queue.stage.step act = .ok (some after.stage) := by
  cases stepped with
  | enter call c backoff closed found point free idle =>
      right
      refine ⟨.begin c.msg c.qos, called c ?_, ?_⟩
      · exact List.mem_of_getElem? found
      · simp only [Stage.step, idle]
        rfl
  | quiet call backoff closed here there after holding goes inner =>
      left
      rw [inner]
  | commit call backoff closed flush stage batch pool holding resumed out
      free push running log committed =>
      exact Or.inr ⟨.resume flush, trivial, resumed⟩
  | update call backoff closed stage batch bytes push holding resumed kept
      booked running idle log =>
      exact Or.inr ⟨.resume false, trivial, resumed⟩
  | broke call backoff closed stage batch push holding resumed kept booked
      running idle log =>
      exact Or.inr ⟨.resume false, trivial, resumed⟩
  | close call backoff stage holding abandoned =>
      exact Or.inr ⟨.abandon .closed, trivial, abandoned.step⟩
  | fail call backoff closed stage error flags holding abandoned flagged =>
      exact Or.inr ⟨.abandon error, trivial, abandoned.step⟩
  | cancel call stage holding abandoned =>
      exact Or.inr ⟨.abandon .timeout, trivial, abandoned.step⟩
  | flush flusher batch pool locked idle booked committed =>
      right
      refine ⟨.flush, trivial, ?_⟩
      simp only [Stage.step, idle, booked]
      rfl
  | _ => exact Or.inl rfl

/-- Every call is one of the priority after a step. -/
theorem Stepped.called (stepped : Stepped queue action after)
    (at_ : action.At p) (called : Called p queue.calls) :
    Called p after.calls := by
  -- what a push goes on to does not change its message
  have modified : ∀ (call : Nat) (change : Call → Call),
      (∀ c, (change c).qos = c.qos ∧ (change c).msg = c.msg) →
        Called p (queue.calls.modify call change) := by
    intro call change same c member
    rcases List.mem_iff_getElem?.1 member with ⟨index, found⟩
    rw [List.getElem?_modify, Option.map_eq_map, Option.map_eq_some_iff]
      at found
    rcases found with ⟨before, was, rfl⟩
    have old := called before (List.mem_of_getElem? was)
    split
    · rw [(same before).1, (same before).2]
      exact old
    · exact old
  have point : ∀ (call : Nat) (point : Point),
      Called p (queue.goTo call point).calls :=
    fun call point => modified call _ fun c => ⟨rfl, rfl⟩
  cases stepped with
  | call msg qos since =>
      intro c member
      rcases List.mem_append.1 member with old | new
      · exact called c old
      · rw [List.mem_singleton.1 new]
        exact at_
  | walk call c backoff closed next found walks => exact point call next
  | congest call c backoff closed error found at_ => exact point call _
  | enter call c backoff closed found at_ free idle =>
      exact modified call _ fun c => ⟨rfl, rfl⟩
  | quiet call backoff closed here there after holding goes inner =>
      rw [inner]
      exact called
  | unlock call backoff closed result holding => exact point call _
  | overtime call c found at_ => exact point call _
  | leave call c found at_ => exact point call _
  | cancel call stage holding abandoned => exact point call _
  | _ => exact called

end Tx
end Thubo
