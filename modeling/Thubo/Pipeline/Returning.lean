import Thubo.Pipeline.Progress
import Thubo.Pipeline.Recovery

/-!
# Every push can return

A push that has been called and has not returned always has a step of its own
or of its timer, or waits for a push that does.  Each such step takes the
pushes of a queue closer to the end of all of them: the one that holds the
lock needs a batch for every turn that it takes, and without a new batch its
timer ends it.
-/

namespace Thubo
namespace Tx

/-! ## How far the pushes of a queue are from their end -/

/-- The turns that a push takes outside the lock. -/
def Point.turns : Point → Nat
  | .entry => 6
  | .tryLock => 5
  | .waitLock => 4
  | .inside => 3
  | .test => 2
  | .signal | .congest _ => 1
  | .done _ | .gone => 0

/-- The steps that a push takes with the lock before it needs a batch. -/
def Inside.turns : Inside → Nat
  | .test => 17
  | .signal => 16
  | .acquire => 15
  | .pop => 14
  | .start => 13
  | .room => 12
  | .book => 11
  | .serialize => 10
  | .flush => 9
  | .clear _ => 8
  | .commit _ => 7
  | .update => 6
  | .wait => 5
  | .fail _ => 4
  | .unlock _ => 3

/-- The batches that a push can still get while none is given back. -/
def Pool.supply (pool : Pool) : Nat :=
  (pool.capacity - pool.allocated) + pool.refill.length +
    pool.spare.isSome.toNat + pool.booked.isSome.toNat

namespace Queue

/-- How far the pushes are from their end outside the lock. -/
def outside (queue : Queue) : Nat :=
  (queue.calls.map fun c => c.point.turns).sum

/-- How far the push that holds the lock is from releasing it. -/
def within (queue : Queue) : Nat :=
  match queue.lock with
  | some (.push _ here) => 20 * queue.pool.supply + here.turns
  | _ => 0

end Queue

/-! ## One push goes on -/

theorem sum_modify {α : Type} {entries : List α} {place : Nat}
    {change : α → α} {entry : α} (weight : α → Nat)
    (found : entries[place]? = some entry) :
    ((entries.modify place change).map weight).sum + weight entry =
      (entries.map weight).sum + weight (change entry) := by
  induction entries generalizing place with
  | nil => cases found
  | cons first entries hypothesis =>
      cases place with
      | zero =>
          cases found
          simp only [List.modify_zero_cons, List.map_cons, List.sum_cons]
          omega
      | succ place =>
          rw [List.getElem?_cons_succ] at found
          have rest := hypothesis found
          simp only [List.modify_succ_cons, List.map_cons, List.sum_cons]
          omega

variable {queue later : Queue} {act : Queue.Action} {p : Priority}

/-- The pushes of a queue are closer to their end. -/
def Closer (queue later : Queue) : Prop :=
  later.outside < queue.outside ∨
    (later.outside = queue.outside ∧ later.within < queue.within)

/-- A push goes on outside the lock. -/
theorem closer_goTo {call : Nat} {c : Call} {change : Call → Call}
    (next : Point) (found : queue.calls[call]? = some c)
    (calls : later.calls = queue.calls.modify call change)
    (goes : (change c).point = next)
    (less : next.turns < c.point.turns) : Closer queue later := by
  left
  have sum : ((queue.calls.modify call change).map
      fun c => c.point.turns).sum + c.point.turns =
        queue.outside + (change c).point.turns :=
    sum_modify (fun c : Call => c.point.turns) found
  rw [goes] at sum
  rw [Queue.outside, calls]
  omega

/-- The push that holds the lock goes on. -/
theorem closer_inner {call : Nat} {here there : Inside}
    (lock : queue.lock = some (.push call here))
    (calls : later.calls = queue.calls)
    (next : later.lock = some (.push call there))
    (less : 20 * later.pool.supply + there.turns <
      20 * queue.pool.supply + here.turns) :
    Closer queue later := by
  right
  constructor
  · rw [Queue.outside, Queue.outside, calls]
  · rw [Queue.within, Queue.within, lock, next]
    exact less

theorem Walks.turns_lt {backoff closed : Bool} {c : Call}
    {here there : Point} (walks : Walks queue backoff closed c here there) :
    there.turns < here.turns := by
  cases walks <;> decide

theorem Quiet.turns_lt {backoff closed : Bool} {here there : Inside}
    (goes : Quiet queue backoff closed here there)
    (awake : here ≠ .wait) : there.turns < here.turns := by
  cases goes with
  | woken => exact absurd rfl awake
  | asleep => exact absurd rfl awake
  | lost => exact absurd rfl awake
  | clear flush => exact Nat.lt_succ_self 7
  | _ => decide

theorem supply_allocate (pool : Pool) :
    pool.allocate.supply ≤ pool.supply := by
  unfold Pool.allocate
  split
  · rename_i less
    simp only [Pool.supply, less.2, Option.isSome_none, Option.isSome_some,
      Bool.toNat_true, Bool.toNat_false]
    omega
  · simp only [Pool.supply]
    omega

theorem supply_popRefill {pool after : Pool}
    (popped : pool.popRefill = some after) :
    after.supply = pool.supply := by
  rcases Pool.popRefill_eq popped with ⟨slot, first, bare, same⟩
  rw [same]
  simp only [Pool.supply, first, bare, List.length_cons,
    Option.isSome_none, Option.isSome_some, Bool.toNat_true,
    Bool.toNat_false]
  omega

theorem supply_book {pool after : Pool} (booked : pool.book = some after) :
    after.supply = pool.supply := by
  rcases Pool.book_eq booked with ⟨id, bare, free, rfl⟩
  simp only [Pool.supply, bare, free, Option.isSome_none,
    Option.isSome_some, Bool.toNat_true, Bool.toNat_false]

theorem supply_commit {pool after : Pool} {batch : WriteBatch}
    (committed : pool.commit batch = some after) :
    after.supply + 1 = pool.supply := by
  rcases Pool.commit_eq committed with ⟨id, taken, rfl⟩
  simp only [Pool.supply, taken, Option.isSome_none, Option.isSome_some,
    Bool.toNat_true, Bool.toNat_false]

/-- What a push does takes the pushes closer to their end. -/
theorem Stepped.closer_push {call : Nat} {backoff closed : Bool}
    (stepped : Stepped queue (.push call backoff closed) later)
    (awake : queue.lock ≠ some (.push call .wait)) :
    Closer queue later := by
  cases stepped with
  | walk call c backoff closed next found walks =>
      exact closer_goTo next found rfl rfl walks.turns_lt
  | congest call c backoff closed error found point =>
      refine closer_goTo (.done (.error error)) found rfl rfl ?_
      rw [point]
      exact Nat.zero_lt_one
  | enter call c backoff closed found point free idle =>
      refine closer_goTo .inside found rfl rfl ?_
      rcases point with point | point <;> rw [point] <;> decide
  | quiet call backoff closed here there later holding goes inner =>
      refine closer_inner holding.lock (by rw [inner]) (by rw [inner]) ?_
      rw [inner]
      refine Nat.add_lt_add_left (goes.turns_lt ?_) _
      rintro rfl
      exact awake holding.lock
  | allocate call backoff closed holding free dry =>
      have most := supply_allocate queue.pool
      refine closer_inner holding.lock rfl rfl ?_
      split <;> simp only [Inside.turns] <;> omega
  | pop call backoff closed pool holding popped =>
      refine closer_inner holding.lock rfl rfl ?_
      rw [show pool.supply = queue.pool.supply from
        supply_popRefill popped]
      exact Nat.lt_succ_self _
  | book call backoff closed pool holding booked =>
      refine closer_inner holding.lock rfl rfl ?_
      rw [show pool.supply = queue.pool.supply from supply_book booked]
      exact Nat.lt_succ_self _
  | commit call backoff closed flush stage batch pool holding resumed out
      free push running log committed =>
      have less := supply_commit committed
      refine closer_inner holding.lock rfl rfl ?_
      simp only [Inside.turns]
      omega
  | update call backoff closed stage batch bytes push holding resumed kept
      booked running idle log =>
      exact closer_inner holding.lock rfl rfl
        (Nat.add_lt_add_left (by decide) _)
  | broke call backoff closed stage batch push holding resumed kept booked
      running idle log =>
      exact closer_inner holding.lock rfl rfl
        (Nat.add_lt_add_left (by decide) _)
  | close call backoff stage holding abandoned =>
      exact closer_inner holding.lock rfl rfl
        (Nat.add_lt_add_left (by decide) _)
  | fail call backoff closed stage error flags holding abandoned flagged =>
      exact closer_inner holding.lock rfl rfl
        (Nat.add_lt_add_left (Nat.lt_succ_self 3) _)
  | unlock call backoff closed result holding =>
      rcases holding.point with ⟨c, found, point⟩
      refine closer_goTo (Queue.after result) found rfl rfl ?_
      rw [point]
      cases result with
      | ok notify => cases notify <;> decide
      | error error => cases error <;> decide

/-- The timer of a push takes the pushes closer to their end. -/
theorem Stepped.closer_expire {call : Nat}
    (stepped : Stepped queue (.expire call) later) :
    Closer queue later := by
  cases stepped with
  | overtime call c found point =>
      refine closer_goTo (.congest .timeout) found rfl rfl ?_
      rw [point]
      decide
  | expire call holding =>
      exact closer_inner holding.lock rfl rfl
        (Nat.add_lt_add_left (Nat.lt_succ_self 4) _)

/-! ## Some push goes on -/

/-- A step of a push or of its timer. -/
inductive Queue.Action.Pushes (backoff closed : Bool) :
    Queue.Action → Prop where
  | push (call : Nat) : Pushes backoff closed (.push call backoff closed)
  | expire (call : Nat) : Pushes backoff closed (.expire call)

/-- Some push of a queue or its timer goes on until all have returned. -/
theorem Sound.closer (sound : Sound p queue)
    (roomy : queue.stage.roomy = true) {c : Call}
    (member : c ∈ queue.calls) (unfinished : c.finished = false)
    (backoff closed : Bool) :
    ∃ act later, act.Pushes backoff closed ∧
      queue.step act = some later ∧ Closer queue later := by
  rcases List.mem_iff_getElem?.1 member with ⟨call, found⟩
  -- a push that is not asleep and can take its step
  have goes : ∀ holder : Nat,
      queue.lock ≠ some (.push holder .wait) →
      (∃ later, queue.step (.push holder backoff closed) = some later) →
        ∃ act later, act.Pushes backoff closed ∧
          queue.step act = some later ∧ Closer queue later := by
    rintro holder awake ⟨later, stepped⟩
    exact ⟨_, later, .push holder, stepped,
      (sound.stepped stepped).closer_push awake⟩
  by_cases held : ∃ holder here, queue.lock = some (.push holder here)
  · rcases held with ⟨holder, here, lock⟩
    rcases sound.logged.holder holder ⟨here, lock⟩ with
      ⟨d, turn, own, inside, _⟩
    by_cases asleep : here = .wait
    · subst asleep
      have expires : ∃ later,
          queue.step (.expire holder) = some later := by
        rcases d with ⟨msg, qos, since, point, place⟩
        cases inside
        simp only [Queue.step, Queue.expire, own, lock, if_true]
        exact ⟨_, rfl⟩
      rcases expires with ⟨later, stepped⟩
      exact ⟨_, later, .expire holder, stepped,
        (sound.stepped stepped).closer_expire⟩
    · apply goes holder
      · rw [lock]
        intro same
        cases same
        exact asleep rfl
      · rcases sound.push_exists own (fun _ => roomy) backoff closed with
          steps | ⟨point, _⟩ | ⟨result, point⟩ | point
        · exact steps
        · rw [inside] at point
          cases point
        · rw [inside] at point
          cases point
        · rw [inside] at point
          cases point
  · have awake : ∀ holder, queue.lock ≠ some (.push holder .wait) :=
      fun holder lock => held ⟨holder, .wait, lock⟩
    rcases sound.push_exists found (fun _ => roomy) backoff closed with
      steps | ⟨point, locked⟩ | ⟨result, point⟩ | point
    · exact goes call (awake call) steps
    · have expires : ∃ later, queue.step (.expire call) = some later := by
        rcases c with ⟨msg, qos, since, at_, place⟩
        cases point
        simp only [Queue.step, Queue.expire, found]
        exact ⟨_, rfl⟩
      rcases expires with ⟨later, stepped⟩
      exact ⟨_, later, .expire call, stepped,
        (sound.stepped stepped).closer_expire⟩
    · rw [Call.finished, point] at unfinished
      cases unfinished
    · rw [Call.finished, point] at unfinished
      cases unfinished

end Tx
end Thubo
