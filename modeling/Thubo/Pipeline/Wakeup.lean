import Thubo.Pipeline.Progress
import Thubo.Pipeline.Recovery

/-!
# Waking the puller

A push that commits a batch, or leaves one booked, sets the notification of
the puller unless the BACKOFF bit is set.  The puller clears the bit after a
pass over all priorities and waits.  It wakes up again when whatever it has
not seen by then still has a push that is to notify it.
-/

namespace Thubo
namespace Tx

/-! ## Pushes that are to notify the puller -/

namespace Queue

/-- A batch is committed, or one with bytes is booked. -/
def shows (queue : Queue) : Bool :=
  !queue.pool.ring.isEmpty ||
    queue.stage.booked.any fun batch => !batch.isEmpty

/-- The push that holds the lock goes on to notify the puller. -/
def tellsAt (queue : Queue) : Inside → Bool
  | .acquire =>
      (queue.pool.booked.isSome || queue.pool.supplies) &&
        queue.stage.roomy
  | .pop | .start | .room | .book | .serialize => queue.stage.roomy
  | .flush | .clear _ | .commit _ | .test | .signal | .update
  | .unlock (.ok true) => true
  | .wait | .fail _ | .unlock _ => false

/-- Somebody with the lock goes on to notify the puller. -/
def tells (queue : Queue) : Bool :=
  match queue.lock with
  | some (.push _ inside) => queue.tellsAt inside
  | _ => false

end Queue

/-- A push has released the lock and goes on to notify the puller. -/
def Call.tells (c : Call) : Bool :=
  match c.point with
  | .test | .signal => true
  | _ => false

/-- A push goes on to notify the puller. -/
def Queue.owes (queue : Queue) : Bool :=
  queue.tells || queue.calls.any Call.tells

variable {p : Priority} {queue later : Queue} {act : Queue.Action}

theorem Queue.shows_iff :
    queue.shows = true ↔
      queue.pool.ring ≠ [] ∨
        ∃ batch, queue.stage.booked = some batch ∧
          batch.isEmpty = false := by
  simp [shows, Option.any_eq_true]

theorem Queue.owes_iff :
    queue.owes = true ↔
      queue.tells = true ∨
        ∃ (call : Nat) (c : Call), queue.calls[call]? = some c ∧
          c.tells = true := by
  rw [owes, Bool.or_eq_true, List.any_eq_true]
  apply or_congr_right
  constructor
  · rintro ⟨c, member, tells⟩
    rcases List.getElem?_of_mem member with ⟨call, found⟩
    exact ⟨call, c, found, tells⟩
  · rintro ⟨call, c, found, tells⟩
    exact ⟨c, List.mem_of_getElem? found, tells⟩

/-- The action of a push whose next step notifies the puller. -/
def Signals (queue : Queue) (act : Queue.Action) : Prop :=
  ∃ call backoff closed, act = .push call backoff closed ∧
    queue.signals call = true

theorem signals_of_call {call : Nat} {c : Call} {backoff closed : Bool}
    (found : queue.calls[call]? = some c) (point : c.point = .signal) :
    Signals queue (.push call backoff closed) := by
  refine ⟨call, backoff, closed, rfl, ?_⟩
  rcases c with ⟨msg, qos, since, place, turn⟩
  cases point
  unfold Queue.signals
  rw [found]

theorem signals_of_holding {call : Nat} {backoff closed : Bool}
    (holding : Holding queue call .signal) :
    Signals queue (.push call backoff closed) := by
  refine ⟨call, backoff, closed, rfl, ?_⟩
  rcases holding.point with ⟨⟨msg, qos, since, place, turn⟩, found, point⟩
  cases point
  unfold Queue.signals
  rw [found, holding.lock]
  simp

/-! ## What a step does to them -/

/-- A push that has room for its message does not fail to write it. -/
theorem Sound.not_roomy (sound : Sound p queue) {stage : Stage}
    {push : Push}
    (resumed : queue.stage.step (.resume false) = .ok (some stage))
    (running : queue.stage.running = some push) {error : SendError}
    (log : stage.log =
      queue.stage.log ++ [⟨push.msg, push.qos, .error error⟩]) :
    queue.stage.roomy = false := by
  rw [Bool.eq_false_iff]
  intro roomy
  rcases sound.traced with ⟨parts, current, traced⟩
  rcases step_wrote traced running roomy false with ⟨after, ran, wrote⟩
  rw [resumed] at ran
  cases ran
  exact wrote.not_failed log

/-- A push that has released the lock and is to notify the puller does so. -/
theorem Stepped.call_tells (stepped : Stepped queue act later)
    (loud : ∀ call backoff closed, act = .push call backoff closed →
      backoff = false)
    {call : Nat} {c : Call} (found : queue.calls[call]? = some c)
    (tells : c.tells = true) :
    Signals queue act ∨
      ∃ d, later.calls[call]? = some d ∧ d.tells = true := by
  have stay : ∀ {calls : List Call}, calls[call]? = some c →
      Signals queue act ∨ ∃ d, calls[call]? = some d ∧ d.tells = true :=
    fun same => Or.inr ⟨c, same, tells⟩
  -- a push at another point goes on
  have other : ∀ {place : Nat} {d : Call} (change : Call → Call),
      queue.calls[place]? = some d → d.tells = false →
        (queue.calls.modify place change)[call]? = some c := by
    intro place d change walked silent
    rw [List.getElem?_modify_ne, found]
    rintro rfl
    rw [found] at walked
    cases walked
    rw [tells] at silent
    cases silent
  have silent : ∀ {d : Call} {point : Point}, d.point = point →
      point ≠ .test → point ≠ .signal → d.tells = false := by
    intro d point at_ test signal
    rw [Call.tells, at_]
    cases point with
    | test => exact absurd rfl test
    | signal => exact absurd rfl signal
    | _ => rfl
  cases stepped with
  | call msg qos since =>
      exact stay (getElem?_later (List.prefix_append _ _) found)
  | walk place d backoff closed next walked walks =>
      by_cases own : place = call
      · subst own
        rw [found] at walked
        cases walked
        have quiet := loud place backoff closed rfl
        generalize at_ : c.point = here at walks
        cases walks with
        | untold noisy =>
            rw [quiet] at noisy
            cases noisy
        | tell silence =>
            exact Or.inr ⟨_, getElem?_modify_of found, by simp; rfl⟩
        | told open_ => exact Or.inl (signals_of_call found at_)
        | closed shut => exact Or.inl (signals_of_call found at_)
        | _ =>
            rw [silent at_ (by simp) (by simp)] at tells
            cases tells
      · right
        refine ⟨c, ?_, tells⟩
        exact (List.getElem?_modify_ne _ _ own).trans found
  | congest place d backoff closed error walked point =>
      exact stay (other _ walked (silent point (by simp) (by simp)))
  | enter place d backoff closed walked point free idle =>
      refine stay (other _ walked ?_)
      rcases point with point | point
      · exact silent point (by simp) (by simp)
      · exact silent point (by simp) (by simp)
  | quiet place backoff closed here there after holding goes inner =>
      rw [inner]
      exact stay found
  | unlock place backoff closed result holding =>
      rcases holding.point with ⟨d, walked, point⟩
      exact stay (other _ walked (silent point (by simp) (by simp)))
  | overtime place d walked point =>
      exact stay (other _ walked (silent point (by simp) (by simp)))
  | leave place d walked point =>
      exact stay (other _ walked (silent point (by simp) (by simp)))
  | cancel place stage holding abandoned =>
      rcases holding.point with ⟨d, walked, point⟩
      exact stay (other _ walked (silent point (by simp) (by simp)))
  | _ => exact stay found

theorem Holding.tells {call : Nat} {inside : Inside}
    (holding : Holding queue call inside) :
    queue.tells = queue.tellsAt inside := by
  rw [Queue.tells, holding.lock]

/-- The push with the lock that is to notify the puller goes on to do so. -/
theorem Stepped.tells (stepped : Stepped queue act later)
    (sound : Sound p queue) (pushing : act.Pushing)
    (loud : ∀ call backoff closed, act = .push call backoff closed →
      backoff = false)
    (tells : queue.tells = true) :
    Signals queue act ∨ later.owes = true := by
  have still : later.tells = true →
      Signals queue act ∨ later.owes = true := by
    intro tells
    exact Or.inr (Queue.owes_iff.2 (Or.inl tells))
  have held : ∀ {call : Nat} {inside : Inside},
      Holding queue call inside → queue.tellsAt inside = true := by
    intro call inside holding
    rw [← holding.tells]
    exact tells
  have unheld : (∀ call inside, queue.lock ≠ some (.push call inside)) →
      Signals queue act ∨ later.owes = true := by
    intro nobody
    unfold Queue.tells at tells
    split at tells
    · rename_i call inside locked
      exact absurd locked (nobody call inside)
    · cases tells
  cases stepped with
  | enter call c backoff closed found point free idle =>
      apply unheld
      rw [free]
      simp
  | quiet call backoff closed here there after holding goes inner =>
      have telling := held holding
      have goesOn : queue.tellsAt there = true →
          Signals queue (.push call backoff closed) ∨
            later.owes = true := by
        intro telling
        apply still
        rw [inner]
        exact telling
      have quiet := loud call backoff closed rfl
      cases goes with
      | reuse booked =>
          exact goesOn (Bool.and_eq_true_iff.1 telling).2
      | recycle free recycled =>
          exact goesOn (Bool.and_eq_true_iff.1 telling).2
      | start => exact goesOn telling
      | room => exact goesOn telling
      | untoldMore noisy more =>
          rw [quiet] at noisy
          cases noisy
      | untoldEnd noisy idle =>
          rw [quiet] at noisy
          cases noisy
      | toldMore open_ more => exact Or.inl (signals_of_holding holding)
      | toldEnd open_ idle => exact Or.inl (signals_of_holding holding)
      | closedEnd shut idle => exact Or.inl (signals_of_holding holding)
      | woken => cases telling
      | asleep => cases telling
      | lost => cases telling
      | _ => exact goesOn rfl
  | allocate call backoff closed holding free dry =>
      have telling := held holding
      rw [Queue.tellsAt, Bool.and_eq_true, free, Option.isSome_none,
        Bool.false_or] at telling
      have supplies := telling.1
      simp only [Pool.supplies, dry, List.isEmpty_nil, Bool.not_true,
        Bool.false_or, decide_eq_true_eq] at supplies
      apply still
      have spare : queue.pool.allocate.spare.isSome := by
        dsimp only [Pool.allocate]
        split
        · rfl
        · rename_i taken
          rw [not_and] at taken
          exact Option.isSome_iff_ne_none.2 (taken supplies)
      rw [if_pos spare]
      exact telling.2
  | pop call backoff closed pool holding popped =>
      exact still (held holding)
  | book call backoff closed pool holding booked =>
      exact still (held holding)
  | commit call backoff closed flush stage batch pool holding resumed out
      free push running log committed => exact still rfl
  | update call backoff closed stage batch bytes push holding resumed kept
      booked running idle log => exact still rfl
  | broke call backoff closed stage batch push holding resumed kept booked
      running idle log =>
      have roomy : queue.stage.roomy = true := held holding
      rw [sound.not_roomy resumed running log] at roomy
      cases roomy
  | close call backoff stage holding abandoned =>
      exact Or.inl (signals_of_holding holding)
  | fail call backoff closed stage error flags holding abandoned flagged =>
      cases held holding
  | unlock call backoff closed result holding =>
      have telling := held holding
      rcases holding.point with ⟨c, found, point⟩
      cases result with
      | error error => cases telling
      | ok notify =>
          cases notify with
          | false => cases telling
          | true =>
              right
              exact Queue.owes_iff.2 (Or.inr
                ⟨call, _, getElem?_modify_of found, by
                  rw [if_pos rfl]
                  rfl⟩)
  | expire call holding => cases held holding
  | cancel call stage holding abandoned => cases held holding
  | lock flusher free =>
      apply unheld
      rw [free]
      simp
  | flush flusher batch pool locked idle booked committed =>
      apply unheld
      rw [locked]
      simp
  | release flusher locked =>
      apply unheld
      rw [locked]
      simp
  | take pool taken => cases pushing
  | decide congested slot pool hand kept => cases pushing
  | collect slot taken pool took hand kept => cases pushing
  | put slot pool put => cases pushing
  | _ => exact still tells

/-- A push that is to notify the puller does so or still is. -/
theorem Stepped.owes (stepped : Stepped queue act later)
    (sound : Sound p queue) (pushing : act.Pushing)
    (loud : ∀ call backoff closed, act = .push call backoff closed →
      backoff = false)
    (owes : queue.owes = true) :
    Signals queue act ∨ later.owes = true := by
  rcases Queue.owes_iff.1 owes with tells | ⟨call, c, found, tells⟩
  · exact stepped.tells sound pushing loud tells
  · rcases stepped.call_tells loud found tells with
      signals | ⟨d, still, tells⟩
    · exact Or.inl signals
    · exact Or.inr (Queue.owes_iff.2 (Or.inr ⟨call, d, still, tells⟩))

/-- A booked batch without capacity has no bytes. -/
theorem Sound.isEmpty_of_narrow (sound : Sound p queue)
    (narrow : queue.stage.batchSize = 0) {batch : WriteBatch}
    (booked : queue.stage.booked = some batch) : batch.isEmpty = true := by
  rcases sound.traced with ⟨parts, current, traced⟩
  have writable := (traced.booked batch booked).writable
  have fits := batch.frame.fits
  rw [writable.capacity_eq, narrow] at fits
  have frame : batch.frame.len - WriteBatch.BATCH_LEN = 0 :=
    Nat.sub_eq_zero_of_le fits
  rw [WriteBatch.isEmpty, WriteBatch.len, frame, writable.whole]
  rfl

/-- A push that writes to its batch has room or leaves no bytes behind. -/
def Queue.writes (queue : Queue) (call : Nat) : Bool :=
  match queue.lock with
  | some (.push holder .serialize) =>
      holder != call || queue.stage.roomy || queue.stage.batchSize == 0
  | _ => true

theorem Queue.writes_serialize {call : Nat}
    (writes : queue.writes call = true)
    (lock : queue.lock = some (.push call .serialize)) :
    queue.stage.roomy = true ∨ queue.stage.batchSize = 0 := by
  rw [Queue.writes, lock] at writes
  simpa using writes

/-- What a push makes the puller see it goes on to notify the puller of. -/
theorem Stepped.shows (stepped : Stepped queue act later)
    (sound : Sound p queue) (soundLater : Sound p later)
    (pushing : act.Pushing) (unflushed : ∀ flusher, act ≠ .flush flusher)
    (writes : ∀ call backoff closed, act = .push call backoff closed →
      queue.writes call = true)
    (shows_ : later.shows = true) :
    queue.shows = true ∨ later.owes = true := by
  cases stepped with
  | quiet call backoff closed here there after holding goes inner =>
      rw [inner] at shows_
      exact Or.inl shows_
  | allocate call backoff closed holding free dry =>
      dsimp only [Pool.allocate] at shows_
      split at shows_ <;> exact Or.inl shows_
  | pop call backoff closed pool holding popped =>
      rcases Pool.popRefill_eq popped with ⟨slot, first, bare, same⟩
      rw [same] at shows_
      exact Or.inl shows_
  | book call backoff closed pool holding booked =>
      rcases Pool.book_eq booked with ⟨id, bare, free, rfl⟩
      exact Or.inl shows_
  | commit call backoff closed flush stage batch pool holding resumed out
      free push running log committed =>
      exact Or.inr (Queue.owes_iff.2 (Or.inl rfl))
  | update call backoff closed stage batch bytes push holding resumed kept
      booked running idle log =>
      exact Or.inr (Queue.owes_iff.2 (Or.inl rfl))
  | broke call backoff closed stage batch push holding resumed kept booked
      running idle log =>
      rcases Queue.shows_iff.1 shows_ with ring | ⟨other, same, bytes⟩
      · exact Or.inl (Queue.shows_iff.2 (Or.inl ring))
      · rcases Queue.writes_serialize (writes call backoff closed rfl)
            holding.lock with roomy | narrow
        · rw [sound.not_roomy resumed running log] at roomy
          cases roomy
        · rcases sound.traced with ⟨parts, current, traced⟩
          have size := step_batchSize traced resumed
          rw [narrow] at size
          rw [soundLater.isEmpty_of_narrow size same] at bytes
          cases bytes
  | close call backoff stage holding abandoned =>
      rcases abandoned.ended with ⟨push, running, rfl⟩
      exact Or.inl shows_
  | fail call backoff closed stage error flags holding abandoned flagged =>
      rcases abandoned.ended with ⟨push, running, rfl⟩
      exact Or.inl shows_
  | cancel call stage holding abandoned =>
      rcases abandoned.ended with ⟨push, running, rfl⟩
      exact Or.inl shows_
  | flush flusher batch pool locked idle booked committed =>
      exact absurd rfl (unflushed flusher)
  | take pool taken => cases pushing
  | decide congested slot pool hand kept => cases pushing
  | collect slot taken pool took hand kept => cases pushing
  | put slot pool put => cases pushing
  | _ => exact Or.inl shows_

/-- No push is to notify the puller when none is in progress. -/
theorem Sound.not_owes (sound : Sound p queue)
    (finished : ∀ c ∈ queue.calls, c.finished = true) :
    queue.owes ≠ true := by
  intro owes
  rcases Queue.owes_iff.1 owes with tells | ⟨call, c, found, tells⟩
  · unfold Queue.tells at tells
    split at tells
    · rename_i call inside locked
      rcases sound.logged.holder call ⟨inside, locked⟩ with
        ⟨c, turn, found, at_, _⟩
      have ended := finished c (List.mem_of_getElem? found)
      rw [Call.finished, at_] at ended
      cases ended
    · cases tells
  · have ended := finished c (List.mem_of_getElem? found)
    unfold Call.finished at ended
    unfold Call.tells at tells
    split at tells
    · rename_i at_
      rw [at_] at ended
      cases ended
    · rename_i at_
      rw [at_] at ended
      cases ended
    · cases tells

/-! ## The puller waits -/

/-- In `Waiter::wait`. -/
def PullPoint.waits : PullPoint → Bool
  | .check | .listening | .parked => true
  | _ => false

namespace Pipeline

variable {pipeline after : Pipeline} {action : Action}

/-- Some priority has a batch for the puller. -/
def shows (pipeline : Pipeline) : Bool :=
  Priority.ALL.any fun p => (pipeline.queues p).shows

/-- The puller is notified, or a push is to notify it. -/
def alarmed (pipeline : Pipeline) : Bool :=
  pipeline.canPull.ok || Priority.ALL.any fun p => (pipeline.queues p).owes

theorem shows_iff :
    pipeline.shows = true ↔ ∃ p, (pipeline.queues p).shows = true := by
  simp [shows]

theorem alarmed_iff :
    pipeline.alarmed = true ↔
      pipeline.canPull.ok = true ∨
        ∃ p, (pipeline.queues p).owes = true := by
  simp [alarmed]

/-- The puller is notified of what there is. -/
def Noticed (pipeline : Pipeline) : Prop :=
  pipeline.shows = true → pipeline.alarmed = true

instance (pipeline : Pipeline) : Decidable (Noticed pipeline) :=
  inferInstanceAs (Decidable (_ → _))

/-- A task past its first point has disabled the pipeline. -/
def Disabling (pipeline : Pipeline) : Prop :=
  pipeline.disabled = false → ∀ point ∈ pipeline.tasks, point = .set

/--
A puller that waits has cleared the BACKOFF bit and is notified of what
there is.
-/
def Attentive (pipeline : Pipeline) : Prop :=
  pipeline.disabled = false → pipeline.puller.point.waits = true →
    pipeline.backoff = false ∧ Noticed pipeline

/--
The puller has seen what there is, or is notified of it, when it clears the
BACKOFF bit; and while it waits no push leaves bytes behind and fails, unless
the puller is notified anyway.
-/
def Attends (pipeline : Pipeline) : Action → Prop
  | .push p call =>
      pipeline.disabled = false → pipeline.puller.point.waits = true →
        pipeline.alarmed = true ∨ (pipeline.queues p).writes call = true
  | .puller _ =>
      pipeline.disabled = false → pipeline.puller.point = .unsetBackoff →
        Noticed pipeline
  | _ => True

instance : DecidableRel Attends
  | _, .push _ _ => inferInstanceAs (Decidable (_ → _ → _ ∨ _))
  | _, .puller _ => inferInstanceAs (Decidable (_ → _ → Noticed _))
  | _, .call _ _ | _, .expire _ _ | _, .cancel _ _ | _, .pull _
  | _, .refill _ _ | _, .cancelPull | _, .drain | _, .drop
  | _, .disable | _, .task _ => .isTrue trivial

section

variable (sound : ∀ q, Sound q (pipeline.queues q)) {q : Priority}
variable (stepped : (pipeline.queues q).step act = some queue)
variable (at_ : act.At q) (pushing : act.Pushing)
variable (unflushed : ∀ flusher, act ≠ .flush flusher)
variable (loud : ∀ call backoff closed, act = .push call backoff closed →
  backoff = false)
variable (queues : after.queues = Priority.update pipeline.queues q queue)
variable (kept : pipeline.canPull.ok = true → after.canPull.ok = true)
variable (signals : Signals (pipeline.queues q) act →
  after.canPull.ok = true)

include sound stepped pushing loud queues kept signals in
/-- A push that is to notify the puller does so or still is. -/
theorem alarmed_of_push (alarmed : pipeline.alarmed = true) :
    after.alarmed = true := by
  rw [alarmed_iff] at alarmed ⊢
  rcases alarmed with ok | ⟨p, owes⟩
  · exact Or.inl (kept ok)
  · by_cases same : p = q
    · subst same
      rcases ((sound p).stepped stepped).owes (sound p) pushing loud owes
        with signal | still
      · exact Or.inl (signals signal)
      · right
        refine ⟨p, ?_⟩
        rw [queues, Priority.update_same]
        exact still
    · right
      refine ⟨p, ?_⟩
      rw [queues, Priority.update_other _ same]
      exact owes

include sound stepped at_ pushing unflushed loud queues kept signals in
/-- A step of a push keeps the puller notified. -/
theorem Noticed.push (noticed : Noticed pipeline)
    (writes : pipeline.alarmed = true ∨
      ∀ call backoff closed, act = .push call backoff closed →
        (pipeline.queues q).writes call = true) :
    Noticed after := by
  intro shown
  have alarm : pipeline.alarmed = true → after.alarmed = true :=
    alarmed_of_push sound stepped pushing loud queues kept signals
  rcases writes with alarmed | writes
  · exact alarm alarmed
  · rcases shows_iff.1 shown with ⟨p, shown⟩
    by_cases same : p = q
    · subst same
      rw [queues, Priority.update_same] at shown
      rcases ((sound p).stepped stepped).shows (sound p)
          ((sound p).step at_ stepped) pushing unflushed writes shown with
        before | owes
      · exact alarm (noticed (shows_iff.2 ⟨p, before⟩))
      · rw [alarmed_iff]
        right
        refine ⟨p, ?_⟩
        rw [queues, Priority.update_same]
        exact owes
    · rw [queues, Priority.update_other _ same] at shown
      exact alarm (noticed (shows_iff.2 ⟨p, shown⟩))

end

/-- The puller is elsewhere. -/
theorem Attentive.away (away : pipeline.puller.point.waits = false) :
    Attentive pipeline := by
  intro _ waits
  rw [away] at waits
  cases waits

theorem next_waits {p : Priority} {point : Priority → PullPoint}
    {last : PullPoint} (points : ∀ q, (point q).waits = false)
    (final : last.waits = false) : (next p point last).waits = false := by
  unfold next
  split
  · exact points _
  · exact final

/-- No step of the puller that is a step of a queue leads to a wait. -/
theorem Goes.away {p : Priority} {point : PullPoint}
    (goes : Goes pipeline p act point) : point.waits = false := by
  cases goes with
  | notify slot discarded at_ => cases discarded <;> rfl
  | drainLock p at_ => exact next_waits (fun _ => rfl) rfl
  | drainFlush p at_ => exact next_waits (fun _ => rfl) rfl
  | dropRefill p at_ => exact next_waits (fun _ => rfl) rfl
  | _ => rfl

/-- A puller that finds no notification stays as attentive as before. -/
theorem Attentive.wait (attentive : Attentive pipeline)
    (waits : pipeline.puller.point.waits = true) (unset : PullPoint) :
    Attentive (pipeline.wait unset) := by
  intro enabled still
  rcases attentive enabled waits with ⟨quiet, noticed⟩
  refine ⟨quiet, ?_⟩
  intro shown
  rcases alarmed_iff.1 (noticed shown) with ok | owes
  · -- the notification would have been found
    simp only [Pipeline.wait, Pipeline.goTo, Event.check, ok] at still
    cases err : pipeline.canPull.err <;> simp [err] at still <;>
      cases still
  · exact alarmed_iff.2 (Or.inr owes)

theorem Pulls.attentive (pulls : Pulls pipeline after)
    (noticed : pipeline.disabled = false →
      pipeline.puller.point = .unsetBackoff → Noticed pipeline)
    (attentive : Attentive pipeline) : Attentive after := by
  cases pulls with
  | goes p action point queue goes stepped => exact .away goes.away
  | drainUnlock p queue point stepped =>
      exact .away (next_waits (fun _ => rfl) rfl)
  | booked p point ring booked =>
      apply Attentive.away
      simp only [Pipeline.foundBooked, Pipeline.goTo]
      split
      · rfl
      · split <;> rfl
  | nothing p point ring free last =>
      apply Attentive.away
      simp only [Pipeline.nothing, Pipeline.goTo]
      split <;> rfl
  | load p point =>
      apply Attentive.away
      simp only [Pipeline.load]
      split <;> rfl
  | age p aged point =>
      apply Attentive.away
      cases aged <;> rfl
  | unsetBackoff point =>
      intro enabled _
      exact ⟨rfl, noticed enabled point⟩
  | check point =>
      apply attentive.wait
      rw [point]
      rfl
  | listening point =>
      apply attentive.wait
      rw [point]
      rfl
  | parked point =>
      intro enabled _
      refine attentive enabled ?_
      rw [point]
      rfl
  | drainNothing p point ring =>
      exact .away (next_waits (fun _ => rfl) rfl)
  | _ => exact .away rfl

/-! ## The tasks that disable the pipeline -/

theorem Pulls.tasks (pulls : Pulls pipeline after) :
    after.tasks = pipeline.tasks ∧
      after.disabled = pipeline.disabled := by
  cases pulls <;> exact ⟨rfl, rfl⟩

/-- A task that locks or flushes a priority has disabled the pipeline. -/
theorem Disabling.disables (disabling : Disabling pipeline) {task : Nat}
    {p : Priority} {point : TaskPoint}
    (disables : Disables pipeline task p act point) :
    pipeline.disabled = true := by
  rw [← Bool.not_eq_false]
  intro enabled
  cases disables with
  | lock at_ =>
      cases disabling enabled _ (List.mem_of_getElem? at_)
  | flush at_ =>
      cases disabling enabled _ (List.mem_of_getElem? at_)
  | unlock at_ =>
      cases disabling enabled _ (List.mem_of_getElem? at_)

theorem Did.disabling (did : Did pipeline action after)
    (disabling : Disabling pipeline) : Disabling after := by
  cases did with
  | puller aged after pulls =>
      intro enabled
      rw [pulls.tasks.2] at enabled
      rw [pulls.tasks.1]
      exact disabling enabled
  | disable =>
      intro enabled point member
      rcases List.mem_append.1 member with old | new
      · exact disabling enabled point old
      · exact List.mem_singleton.1 new
  | disabled task point =>
      intro enabled
      cases enabled
  | task task p act point queue disables stepped =>
      intro enabled
      have disabled := disabling.disables disables
      rw [show pipeline.disabled = false from enabled] at disabled
      cases disabled
  | _ => exact disabling

/-! ## Every run -/

theorem Did.attentive (did : Did pipeline action after)
    (sound : ∀ q, Sound q (pipeline.queues q))
    (disabling : Disabling pipeline)
    (attends : Attends pipeline action)
    (attentive : Attentive pipeline) : Attentive after := by
  have silent : ∀ {q : Priority} {act : Queue.Action},
      (∀ call backoff closed, act ≠ .push call backoff closed) →
        Signals (pipeline.queues q) act → after.canPull.ok = true := by
    rintro q act other ⟨call, backoff, closed, is, _⟩
    exact absurd is (other call backoff closed)
  cases did with
  | call msg qos queue bounded stepped =>
      intro enabled waits
      rcases attentive enabled waits with ⟨quiet, noticed⟩
      exact ⟨quiet, noticed.push sound stepped ⟨rfl, bounded⟩ trivial
        (by simp) (by simp) rfl id (silent (by simp)) (Or.inr (by simp))⟩
  | push q call queue stepped =>
      intro enabled waits
      rcases attentive enabled waits with ⟨quiet, noticed⟩
      refine ⟨quiet, noticed.push sound stepped trivial trivial (by simp)
        ?_ rfl ?_ ?_ ?_⟩
      · intro other backoff closed is
        cases is
        exact quiet
      · intro ok
        dsimp only
        split
        · rfl
        · exact ok
      · rintro ⟨other, backoff, closed, is, signals⟩
        cases is
        dsimp only
        rw [if_pos signals]
        rfl
      · rcases attends enabled waits with alarmed | writes
        · exact Or.inl alarmed
        · right
          intro other backoff closed is
          cases is
          exact writes
  | expire q call queue stepped =>
      intro enabled waits
      rcases attentive enabled waits with ⟨quiet, noticed⟩
      exact ⟨quiet, noticed.push sound stepped trivial trivial (by simp)
        (by simp) rfl id (silent (by simp)) (Or.inr (by simp))⟩
  | cancel q call queue stepped =>
      intro enabled waits
      rcases attentive enabled waits with ⟨quiet, noticed⟩
      exact ⟨quiet, noticed.push sound stepped trivial trivial (by simp)
        (by simp) rfl id (silent (by simp)) (Or.inr (by simp))⟩
  | puller aged after pulls => exact pulls.attentive attends attentive
  | disable => exact attentive
  | disabled task point =>
      intro enabled
      cases enabled
  | task task p act point queue disables stepped =>
      intro enabled
      have disabled := disabling.disables disables
      rw [show pipeline.disabled = false from enabled] at disabled
      cases disabled
  | _ => exact .away rfl

/--
The puller is suspended without a notification, no push is in progress, and
there is a batch for the puller.
-/
structure Stalled (pipeline : Pipeline) : Prop where
  enabled : pipeline.disabled = false
  parked : pipeline.puller.point = .parked
  unset : pipeline.canPull.ok = false
  finished : ∀ p, ∀ c ∈ (pipeline.queues p).calls, c.finished = true
  shows : pipeline.shows = true

instance (pipeline : Pipeline) : Decidable (Stalled pipeline) :=
  decidable_of_iff
    (pipeline.disabled = false ∧ pipeline.puller.point = .parked ∧
      pipeline.canPull.ok = false ∧
      (∀ p ∈ Priority.ALL, ∀ c ∈ (pipeline.queues p).calls,
        c.finished = true) ∧ pipeline.shows = true)
    ⟨fun ⟨enabled, parked, unset, finished, shows_⟩ =>
        ⟨enabled, parked, unset,
          fun p => finished p (Priority.mem_ALL p), shows_⟩,
      fun ⟨enabled, parked, unset, finished, shows_⟩ =>
        ⟨enabled, parked, unset, fun p _ => finished p, shows_⟩⟩

/-- What a puller that waits has not seen will wake it up. -/
theorem attentive_of_run {capacity batchSize : Nat}
    (small : batchSize ≤ 65535) {actions : List Action}
    (guarded : Runs.Guarded step Attends (new capacity batchSize) actions)
    (ran : run (new capacity batchSize) actions = some pipeline) :
    Attentive pipeline := by
  have keeps : ∀ before action after,
      ((∀ q, Sound q (before.queues q)) ∧ Disabling before ∧
          Attentive before) →
        Attends before action → step before action = some after →
          (∀ q, Sound q (after.queues q)) ∧ Disabling after ∧
            Attentive after := by
    rintro before action after ⟨sound, disabling, attentive⟩ attends stepped
    have did := step_did stepped
    refine ⟨?_, did.disabling disabling,
      did.attentive sound disabling attends attentive⟩
    intro q
    exact (did.moves q).sound (sound q)
  refine (Runs.invariant keeps ⟨?_, ?_, .away rfl⟩ guarded ran).2.2
  · intro q
    exact sound_new q capacity small
  · intro _ point impossible
    cases impossible

/--
In every run in which the puller is notified of what there is whenever it
clears the BACKOFF bit, no wake-up is lost.
-/
theorem not_stalled_of_run {capacity batchSize : Nat}
    (small : batchSize ≤ 65535) {actions : List Action}
    (guarded : Runs.Guarded step Attends (new capacity batchSize) actions)
    (ran : run (new capacity batchSize) actions = some pipeline) :
    ¬ Stalled pipeline := by
  intro stalled
  have attentive := attentive_of_run small guarded ran stalled.enabled
    (by rw [stalled.parked]; rfl)
  rcases alarmed_iff.1 (attentive.2 stalled.shows) with ok | ⟨p, owes⟩
  · rw [stalled.unset] at ok
    cases ok
  · exact (sound_of_run small ran p).not_owes (stalled.finished p) owes

/-- The puller waits, and a push leaves a batch booked. -/
def wakingUp : List Action :=
  [[Action.pull .pull], List.replicate 8 (.puller false),
    [.call shortMessage ⟨2⟩], List.replicate 12 (.push .low 0)].flatten

/-- The push has notified the puller. -/
theorem not_stalled_of_run_pushed :
    ∃ pipeline : Pipeline, pipeline.puller.point = .parked ∧
      pipeline.shows = true ∧ ¬ Stalled pipeline := by
  have guarded :
      Runs.Guarded step Attends (new 4 64) wakingUp := by
    decide +kernel
  have passed : (run (new 4 64) wakingUp).any
      (fun pipeline => pipeline.puller.point = .parked ∧
        pipeline.shows = true) = true := by
    decide +kernel
  rcases Runs.exists_of_any passed with ⟨pipeline, ran, found⟩
  have waits := of_decide_eq_true found
  exact ⟨pipeline, waits.1, waits.2,
    not_stalled_of_run (by decide) guarded ran⟩

/--
The puller wakes up, sets the BACKOFF bit, flushes the booked batch, takes it
and returns.  The bit stays set: in the next pass a push commits a batch
where the puller has already looked, and sends no notification.
-/
def stalling : List Action :=
  [wakingUp, List.replicate 21 (.puller true), [.pull .pull],
    List.replicate 2 (.puller false), [.call shortMessage ⟨8⟩],
    List.replicate 11 (.push .high 0),
    List.replicate 6 (.puller false)].flatten

/-- The puller is suspended, and the batch waits. -/
theorem stalled_after_backoff :
    ∃ pipeline, run (new 4 64) stalling = some pipeline ∧
      Stalled pipeline := by
  have passed : (run (new 4 64) stalling).any
      (fun pipeline => Stalled pipeline) = true := by
    decide +kernel
  rcases Runs.exists_of_any passed with ⟨pipeline, ran, found⟩
  exact ⟨pipeline, ran, of_decide_eq_true found⟩

end Pipeline
end Tx
end Thubo
