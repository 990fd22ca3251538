import Thubo.Pipeline.Settled

/-!
# What the pushes of a queue return

The pushes that have held the lock are known by the order in which they did.
The log of the stage says how each of them ended, and a push returns what the
log says of it, or `Closed` when only its notification has failed.
-/

namespace Thubo
namespace Tx

/-! ## A call and its entry -/

/-- The log says how a push has ended. -/
def Call.Ended (c : Call) (log : List Finished)
    (result : Except SendError Unit) : Prop :=
  ∃ turn entry, c.turn = some turn ∧ log[turn]? = some entry ∧
    entry.result = result

/-- A push is where the log says, and `held` when it holds the lock. -/
def Call.Told (c : Call) (log : List Finished) (held : Prop) : Prop :=
  match c.point with
  | .entry | .tryLock | .waitLock => c.turn = none
  | .inside => held
  | .test | .signal | .done (.ok _) => c.Ended log (.ok ())
  | .congest error =>
      (c.turn = none ∧ error = .timeout) ∨ c.Ended log (.error error)
  | .done (.error error) =>
      (c.turn = none ∧ (error = .dropped ∨ error = .timeout)) ∨
        c.Ended log (.error error) ∨
          (error = .closed ∧ c.Ended log (.ok ()))
  | .gone => c.turn = none ∨ c.Ended log (.error .timeout)

/-- The push that holds the lock. -/
def HeldBy (lock : Option Holder) (call : Nat) : Prop :=
  ∃ here, lock = some (.push call here)

/-- The calls, the log of the stage and the lock agree. -/
structure Logged (calls : List Call) (stage : Stage)
    (lock : Option Holder) : Prop where
  called : ∀ (call : Nat) (c : Call) (turn : Nat),
    calls[call]? = some c → c.turn = some turn →
      stage.pushes[turn]? = some (c.msg, c.qos)
  taken : ∀ turn, turn < stage.pushes.length →
    ∃ (call : Nat) (c : Call), calls[call]? = some c ∧ c.turn = some turn
  single : ∀ (call other : Nat) (c d : Call) (turn : Nat),
    calls[call]? = some c → calls[other]? = some d →
      c.turn = some turn → d.turn = some turn → call = other
  holder : ∀ (call : Nat), HeldBy lock call →
    ∃ (c : Call) (turn : Nat), calls[call]? = some c ∧
      c.point = .inside ∧ c.turn = some turn ∧
        turn + 1 = stage.pushes.length
  told : ∀ (call : Nat) (c : Call), calls[call]? = some c →
    c.Told stage.log (HeldBy lock call)

theorem logged_new (batchSize : Nat) :
    Logged [] (.new batchSize) none where
  called call c turn impossible := by
    cases impossible
  taken turn impossible := by
    cases impossible
  single call other c d turn impossible := by
    cases impossible
  holder call impossible := by
    rcases impossible with ⟨here, impossible⟩
    cases impossible
  told call c impossible := by
    cases impossible

variable {calls : List Call} {stage ended : Stage}
variable {lock lock' : Option Holder}

theorem Call.Ended.later {c : Call} {log log' : List Finished}
    {result : Except SendError Unit} (ended : c.Ended log result)
    (grown : log <+: log') : c.Ended log' result := by
  rcases ended with ⟨turn, entry, own, found, same⟩
  exact ⟨turn, entry, own, getElem?_later grown found, same⟩

theorem Call.Told.later {c : Call} {log log' : List Finished}
    {held held' : Prop} (told : c.Told log held) (grown : log <+: log')
    (holds : held → held') : c.Told log' held' := by
  unfold Call.Told at told ⊢
  split at told
  · exact told
  · exact told
  · exact told
  · exact holds told
  · exact told.later grown
  · exact told.later grown
  · exact told.later grown
  · exact told.imp_right fun ended => ended.later grown
  · rcases told with never | ended | ⟨closed, ended⟩
    · exact Or.inl never
    · exact Or.inr (Or.inl (ended.later grown))
    · exact Or.inr (Or.inr ⟨closed, ended.later grown⟩)
  · exact told.imp_right fun ended => ended.later grown

/-- The calls stay as they are. -/
theorem Logged.stay (logged : Logged calls stage lock)
    (pushes : ended.pushes = stage.pushes)
    (grown : stage.log <+: ended.log)
    (held : ∀ call, HeldBy lock' call ↔ HeldBy lock call) :
    Logged calls ended lock' where
  called call c turn found own := by
    rw [pushes]
    exact logged.called call c turn found own
  taken turn bound := by
    rw [pushes] at bound
    exact logged.taken turn bound
  single := logged.single
  holder call holds := by
    rw [pushes]
    exact logged.holder call ((held call).1 holds)
  told call c found :=
    (logged.told call c found).later grown (held call).2

/-- The call that a push makes when it goes on to a point. -/
def Call.at (c : Call) (point : Point) : Call :=
  { c with point := point }

/-- An entry of a list in which one entry has changed. -/
theorem getElem?_modify_cases {α : Type} {entries : List α}
    {place other : Nat} {change : α → α} {entry : α}
    (found : (entries.modify place change)[other]? = some entry) :
    ∃ before, entries[other]? = some before ∧
      entry = if place = other then change before else before := by
  rw [List.getElem?_modify, Option.map_eq_map, Option.map_eq_some_iff]
    at found
  rcases found with ⟨before, found, same⟩
  exact ⟨before, found, same.symm⟩

/-- A call of the queue after one push has gone on. -/
theorem getElem?_modify_at {call other : Nat} {point : Point} {d : Call}
    (found : (calls.modify call fun c => c.at point)[other]? = some d) :
    ∃ c, calls[other]? = some c ∧
      d = if call = other then c.at point else c :=
  getElem?_modify_cases found

theorem getElem?_modify_of {call other : Nat} {point : Point} {c : Call}
    (found : calls[other]? = some c) :
    (calls.modify call fun c => c.at point)[other]? =
      some (if call = other then c.at point else c) := by
  rw [List.getElem?_modify, found]
  rfl

theorem turn_at {call other : Nat} {point : Point} {c : Call} :
    (if call = other then c.at point else c).turn = c.turn := by
  split <;> rfl

/-- A push goes on without the lock, or releases it. -/
theorem Logged.move (logged : Logged calls stage lock) {call : Nat}
    {c : Call} {point : Point} (found : calls[call]? = some c)
    (pushes : ended.pushes = stage.pushes)
    (grown : stage.log <+: ended.log)
    (free : (HeldBy lock call ∧ lock' = none) ∨
      (lock' = lock ∧ c.point ≠ .inside))
    (told : (c.at point).Told ended.log False) :
    Logged (calls.modify call fun c => c.at point) ended lock' := by
  have notOwn : ¬ HeldBy lock' call := by
    rcases free with ⟨_, rfl⟩ | ⟨rfl, outside⟩
    · rintro ⟨here, impossible⟩
      cases impossible
    · intro holds
      rcases logged.holder call holds with ⟨d, turn, same, inside, _⟩
      rw [found] at same
      cases same
      exact outside inside
  have others : ∀ other, other ≠ call →
      (HeldBy lock other ↔ HeldBy lock' other) := by
    intro other different
    rcases free with ⟨⟨here, rfl⟩, rfl⟩ | ⟨rfl, _⟩
    · constructor
      · rintro ⟨there, same⟩
        cases same
        exact absurd rfl different
      · rintro ⟨there, impossible⟩
        cases impossible
    · exact Iff.rfl
  constructor
  · intro other d turn foundOther own
    rcases getElem?_modify_at foundOther with ⟨before, was, rfl⟩
    rw [turn_at] at own
    rw [pushes, logged.called other before turn was own]
    split <;> rfl
  · intro turn bound
    rw [pushes] at bound
    rcases logged.taken turn bound with ⟨other, d, was, own⟩
    refine ⟨other, _, getElem?_modify_of was, ?_⟩
    rw [turn_at]
    exact own
  · intro first second d e turn foundFirst foundSecond ownFirst ownSecond
    rcases getElem?_modify_at foundFirst with ⟨_, wasFirst, rfl⟩
    rcases getElem?_modify_at foundSecond with ⟨_, wasSecond, rfl⟩
    rw [turn_at] at ownFirst ownSecond
    exact logged.single first second _ _ turn wasFirst wasSecond ownFirst
      ownSecond
  · intro other holds
    have different : other ≠ call := by
      rintro rfl
      exact notOwn holds
    rcases logged.holder other ((others other different).2 holds) with
      ⟨d, turn, was, inside, own, last⟩
    refine ⟨d, turn, ?_, inside, own, ?_⟩
    · rw [getElem?_modify_of was, if_neg different.symm]
    · rw [pushes]
      exact last
  · intro other d foundOther
    rcases getElem?_modify_at foundOther with ⟨before, was, rfl⟩
    split
    · rename_i same
      cases same
      rw [found] at was
      cases was
      exact told.later (List.prefix_refl _) False.elim
    · rename_i different
      exact (logged.told other before was).later grown
        (others other (Ne.symm different)).1

/-- An entry of a list that has got one more. -/
theorem getElem?_concat {α : Type} {entries : List α} {place : Nat}
    {entry last : α} (found : (entries ++ [last])[place]? = some entry) :
    entries[place]? = some entry ∨
      (place = entries.length ∧ entry = last) := by
  rw [List.getElem?_append] at found
  split at found
  · exact Or.inl found
  · rename_i late
    have bound := (List.getElem?_eq_some_iff.1 found).1
    rw [List.length_singleton] at bound
    have here : place = entries.length := by omega
    rw [here, Nat.sub_self] at found
    cases found
    exact Or.inr ⟨here, rfl⟩

/-- A push is called. -/
theorem Logged.call (logged : Logged calls stage lock) (msg : Bytes)
    (qos : QoS) (since : Since) :
    Logged (calls ++ [⟨msg, qos, since, .entry, none⟩]) stage lock := by
  have old : ∀ {call : Nat} {c : Call} {turn : Nat},
      (calls ++ [⟨msg, qos, since, .entry, none⟩])[call]? = some c →
        c.turn = some turn → calls[call]? = some c := by
    intro call c turn found own
    rcases getElem?_concat found with was | ⟨_, rfl⟩
    · exact was
    · cases own
  constructor
  · intro call c turn found own
    exact logged.called call c turn (old found own) own
  · intro turn bound
    rcases logged.taken turn bound with ⟨call, c, found, own⟩
    exact ⟨call, c, getElem?_later (List.prefix_append _ _) found, own⟩
  · intro call other c d turn found foundOther own ownOther
    exact logged.single call other c d turn (old found own)
      (old foundOther ownOther) own ownOther
  · intro call holds
    rcases logged.holder call holds with ⟨c, turn, found, rest⟩
    exact ⟨c, turn, getElem?_later (List.prefix_append _ _) found, rest⟩
  · intro call c found
    rcases getElem?_concat found with was | ⟨_, rfl⟩
    · exact logged.told call c was
    · rfl

/-- A push takes the lock. -/
theorem Logged.enter (logged : Logged calls stage none) {call : Nat}
    {c : Call} (found : calls[call]? = some c) (fresh : c.turn = none)
    (idle : stage.running = none) :
    Logged
      (calls.modify call fun c =>
        { c with point := .inside, turn := some stage.log.length })
      { stage with running := some ⟨c.msg, c.qos, .start⟩ }
      (some (.push call .acquire)) := by
  have length : stage.pushes.length = stage.log.length := by
    simp [Stage.pushes, idle]
  have pushes : ({ stage with
      running := some ⟨c.msg, c.qos, .start⟩ } : Stage).pushes =
        stage.pushes ++ [(c.msg, c.qos)] := by
    simp [Stage.pushes, idle]
  -- the calls after the step, with what they were before
  have was : ∀ {other : Nat} {d : Call},
      (calls.modify call fun c =>
        { c with point := .inside, turn := some stage.log.length })[other]? =
          some d →
      (other = call ∧
        d = { c with point := .inside, turn := some stage.log.length }) ∨
      (other ≠ call ∧ calls[other]? = some d) := by
    intro other d foundOther
    rw [List.getElem?_modify, Option.map_eq_map, Option.map_eq_some_iff]
      at foundOther
    rcases foundOther with ⟨before, same, eq⟩
    split at eq
    · rename_i own
      cases own
      rw [found] at same
      cases same
      exact Or.inl ⟨rfl, eq.symm⟩
    · rename_i different
      cases eq
      exact Or.inr ⟨Ne.symm different, same⟩
  have early : ∀ {other : Nat} {d : Call} {turn : Nat},
      calls[other]? = some d → d.turn = some turn →
        turn < stage.log.length := by
    intro other d turn foundOther own
    have place := logged.called other d turn foundOther own
    have bound := (List.getElem?_eq_some_iff.1 place).1
    omega
  have becomes : (calls.modify call fun c =>
      { c with point := .inside, turn := some stage.log.length })[call]? =
        some { c with
          point := .inside, turn := some stage.log.length } := by
    rw [List.getElem?_modify_eq, found]
    rfl
  constructor
  · intro other d turn foundOther own
    rw [pushes]
    rcases was foundOther with ⟨rfl, rfl⟩ | ⟨_, before⟩
    · cases own
      rw [← length, List.getElem?_concat_length]
    · exact getElem?_later (List.prefix_append _ _)
        (logged.called other d turn before own)
  · intro turn bound
    rw [pushes, List.length_append, List.length_singleton] at bound
    rcases Nat.lt_or_eq_of_le (Nat.lt_succ_iff.1 bound) with less | same
    · rcases logged.taken turn less with ⟨other, d, before, own⟩
      refine ⟨other, d, ?_, own⟩
      rw [List.getElem?_modify_ne, before]
      rintro rfl
      rw [found] at before
      cases before
      rw [fresh] at own
      cases own
    · exact ⟨call, _, becomes, by rw [same, length]⟩
  · intro first second d e turn foundFirst foundSecond ownFirst ownSecond
    rcases was foundFirst with ⟨rfl, rfl⟩ | ⟨_, beforeFirst⟩
    · rcases was foundSecond with ⟨rfl, rfl⟩ | ⟨_, beforeSecond⟩
      · rfl
      · cases ownFirst
        exact absurd (early beforeSecond ownSecond) (Nat.lt_irrefl _)
    · rcases was foundSecond with ⟨rfl, rfl⟩ | ⟨_, beforeSecond⟩
      · cases ownSecond
        exact absurd (early beforeFirst ownFirst) (Nat.lt_irrefl _)
      · exact logged.single first second d e turn beforeFirst beforeSecond
          ownFirst ownSecond
  · rintro other ⟨here, same⟩
    cases same
    refine ⟨_, stage.log.length, becomes, rfl, rfl, ?_⟩
    rw [pushes, List.length_append, List.length_singleton, length]
  · intro other d foundOther
    rcases was foundOther with ⟨rfl, rfl⟩ | ⟨_, before⟩
    · exact ⟨.acquire, rfl⟩
    · refine (logged.told other d before).later (List.prefix_refl _) ?_
      rintro ⟨here, impossible⟩
      cases impossible

/-! ## Every step -/

variable {queue after : Queue} {action : Queue.Action}

/-- The push that holds the lock has the last entry. -/
theorem Logged.last {call : Nat} {entry : Finished}
    (logged : Logged calls stage lock) (held : HeldBy lock call)
    (idle : stage.running = none)
    (last : stage.log.getLast? = some entry) :
    ∃ c, calls[call]? = some c ∧ c.point = .inside ∧
      c.Ended stage.log entry.result := by
  rcases logged.holder call held with ⟨c, turn, found, inside, own, place⟩
  refine ⟨c, found, inside, turn, entry, own, ?_, rfl⟩
  have length : stage.pushes.length = stage.log.length := by
    simp [Stage.pushes, idle]
  rw [List.getLast?_eq_getElem?] at last
  rw [← last]
  congr 1
  omega

/-- The running push ends and keeps its place. -/
theorem pushes_ended {push : Push} {result : Except SendError Unit}
    (running : stage.running = some push)
    (log : ended.log = stage.log ++ [⟨push.msg, push.qos, result⟩])
    (idle : ended.running = none) : ended.pushes = stage.pushes := by
  simp [Stage.pushes, running, log, idle]

/-- The push that holds the lock still holds it. -/
theorem heldBy_iff {call : Nat} {here there : Inside}
    (locked : lock = some (.push call here)) (other : Nat) :
    HeldBy (some (.push call there)) other ↔ HeldBy lock other := by
  rw [locked]
  constructor
  · rintro ⟨point, same⟩
    cases same
    exact ⟨here, rfl⟩
  · rintro ⟨point, same⟩
    cases same
    exact ⟨there, rfl⟩

theorem heldBy_flusher (flusher : Flusher) (call : Nat) :
    HeldBy (some (.flusher flusher)) call ↔ HeldBy none call := by
  constructor
  · rintro ⟨here, impossible⟩
    cases impossible
  · rintro ⟨here, impossible⟩
    cases impossible

/-- The push that holds the lock ends. -/
theorem Logged.finish {call : Nat} {here there : Inside} {push : Push}
    {result : Except SendError Unit}
    (logged : Logged calls stage lock)
    (locked : lock = some (.push call here))
    (running : stage.running = some push)
    (log : ended.log = stage.log ++ [⟨push.msg, push.qos, result⟩])
    (idle : ended.running = none) :
    Logged calls ended (some (.push call there)) :=
  logged.stay (pushes_ended running log idle)
    (by rw [log]; exact List.prefix_append _ _) (heldBy_iff locked)

/-- What a push goes on to is what the log says. -/
theorem told_after {c : Call} {log : List Finished}
    {result : Except SendError Bool}
    (fits : match result with
      | .ok _ => c.Ended log (.ok ())
      | .error error => c.Ended log (.error error) ∨
          (error = .closed ∧ c.Ended log (.ok ()))) :
    (c.at (Queue.after result)).Told log False := by
  cases result with
  | ok notify =>
      cases notify
      · exact fits
      · exact fits
  | error error =>
      cases error with
      | dropped =>
          rcases fits with ended | ⟨impossible, _⟩
          · exact Or.inr ended
          · cases impossible
      | timeout =>
          rcases fits with ended | ⟨impossible, _⟩
          · exact Or.inr ended
          · cases impossible
      | encodingFailed => exact Or.inr fits
      | closed => exact Or.inr fits
      | internal => exact Or.inr fits

theorem Walks.told_at {backoff closed : Bool} {c : Call} {here there : Point}
    {log : List Finished} {held : Prop}
    (walks : Walks queue backoff closed c here there)
    (point : c.point = here) (told : c.Told log held) :
    (c.at there).Told log False := by
  rw [Call.Told, point] at told
  cases walks with
  | drop congested control => exact Or.inl ⟨told, Or.inl rfl⟩
  | enter => exact told
  | queue => exact told
  | untold quiet => exact told
  | tell loud => exact told
  | told open_ => exact told
  | closed shut => exact Or.inr (Or.inr ⟨rfl, told⟩)

/-- The calls, the log and the lock agree after a step. -/
theorem Stepped.logged (stepped : Stepped queue action after)
    (agree : Agree queue.pool queue.stage (inside queue.lock))
    (logged : Logged queue.calls queue.stage queue.lock) :
    Logged after.calls after.stage after.lock := by
  cases stepped with
  | call msg qos since => exact logged.call msg qos since
  | walk call c backoff closed next found walks =>
      have told := logged.told call c found
      have outside : c.point ≠ .inside := by
        intro inside
        rw [inside] at walks
        cases walks
      exact logged.move found rfl (List.prefix_refl _)
        (Or.inr ⟨rfl, outside⟩) (walks.told_at rfl told)
  | congest call c backoff closed error found point =>
      have told := logged.told call c found
      rw [Call.Told, point] at told
      refine logged.move found rfl (List.prefix_refl _)
        (Or.inr ⟨rfl, by rw [point]; simp⟩) ?_
      rcases told with ⟨never, timeout⟩ | ended
      · exact Or.inl ⟨never, Or.inr timeout⟩
      · exact Or.inr (Or.inl ended)
  | enter call c backoff closed found point free idle =>
      rw [free] at logged
      refine logged.enter found ?_ idle
      have told := logged.told call c found
      rcases point with point | point
      · rw [Call.Told, point] at told
        exact told
      · rw [Call.Told, point] at told
        exact told
  | quiet call backoff closed here there after holding goes inner =>
      rw [inner]
      exact logged.stay rfl (List.prefix_refl _) (heldBy_iff holding.lock)
  | allocate call backoff closed holding free dry =>
      exact logged.stay rfl (List.prefix_refl _) (heldBy_iff holding.lock)
  | pop call backoff closed pool holding popped =>
      exact logged.stay rfl (List.prefix_refl _) (heldBy_iff holding.lock)
  | book call backoff closed pool holding booked =>
      exact logged.stay rfl (List.prefix_refl _) (heldBy_iff holding.lock)
  | commit call backoff closed flush stage batch pool holding resumed out
      free push running log committed =>
      rcases log with ⟨log, point, more⟩ | ⟨idle, log⟩
      · refine logged.stay ?_ (log ▸ List.prefix_refl _)
          (heldBy_iff holding.lock)
        simp [Stage.pushes, running, more, log]
      · exact logged.finish holding.lock running log idle
  | update call backoff closed stage batch bytes push holding resumed kept
      booked running idle log =>
      exact logged.finish holding.lock running log idle
  | broke call backoff closed stage batch push holding resumed kept booked
      running idle log =>
      exact logged.finish holding.lock running log idle
  | close call backoff stage holding abandoned =>
      rcases abandoned.ended with ⟨push, running, rfl⟩
      exact logged.finish holding.lock running rfl rfl
  | fail call backoff closed stage error flags holding abandoned flagged =>
      rcases abandoned.ended with ⟨push, running, rfl⟩
      exact logged.finish holding.lock running rfl rfl
  | unlock call backoff closed result holding =>
      have held : HeldBy queue.lock call := ⟨_, holding.lock⟩
      rw [holding.lock] at agree
      rcases agree.fits _ rfl with ⟨idle, how⟩
      cases result with
      | ok notify =>
          rcases how with ⟨entry, last, ok⟩
          rcases logged.last held idle last with ⟨c, found, inside, ended⟩
          rw [ok] at ended
          exact logged.move found rfl (List.prefix_refl _)
            (Or.inl ⟨held, rfl⟩) (told_after ended)
      | error error =>
          rcases how with ⟨entry, last, failed⟩ | ⟨closed, entry, last, ok⟩
          · rcases logged.last held idle last with
              ⟨c, found, inside, ended⟩
            rw [failed] at ended
            exact logged.move found rfl (List.prefix_refl _)
              (Or.inl ⟨held, rfl⟩) (told_after (Or.inl ended))
          · rcases logged.last held idle last with
              ⟨c, found, inside, ended⟩
            rw [ok] at ended
            exact logged.move found rfl (List.prefix_refl _)
              (Or.inl ⟨held, rfl⟩) (told_after (Or.inr ⟨closed, ended⟩))
  | overtime call c found point =>
      have told := logged.told call c found
      rw [Call.Told, point] at told
      exact logged.move found rfl (List.prefix_refl _)
        (Or.inr ⟨rfl, by rw [point]; simp⟩) (Or.inl ⟨told, rfl⟩)
  | expire call holding =>
      exact logged.stay rfl (List.prefix_refl _) (heldBy_iff holding.lock)
  | leave call c found point =>
      have told := logged.told call c found
      rw [Call.Told, point] at told
      exact logged.move found rfl (List.prefix_refl _)
        (Or.inr ⟨rfl, by rw [point]; simp⟩) (Or.inl told)
  | cancel call stage holding abandoned =>
      rcases abandoned.ended with ⟨push, running, rfl⟩
      have ended : Logged queue.calls
          (queue.stage.finish push (.error .timeout))
          (some (.push call .wait)) :=
        logged.finish holding.lock running rfl rfl
      have held : HeldBy (some (.push call .wait)) call := ⟨_, rfl⟩
      rcases ended.last held rfl List.getLast?_concat with
        ⟨c, found, inside, entry⟩
      exact ended.move found rfl (List.prefix_refl _)
        (Or.inl ⟨held, rfl⟩) (Or.inr entry)
  | lock flusher free =>
      rw [free] at logged
      exact logged.stay rfl (List.prefix_refl _) (heldBy_flusher flusher)
  | nothing flusher locked free => exact logged
  | flush flusher batch pool locked idle booked committed =>
      exact logged.stay rfl (List.prefix_refl _) fun _ => Iff.rfl
  | release flusher locked =>
      rw [locked] at logged
      exact logged.stay rfl (List.prefix_refl _) fun call =>
        (heldBy_flusher flusher call).symm
  | requestFlush => exact logged
  | take pool taken => exact logged
  | uncongest => exact logged
  | decide congested slot pool inspected kept => exact logged
  | collect slot taken pool took inspected kept => exact logged
  | put slot pool put => exact logged
  | notifyRefill => exact logged
  | failRefill => exact logged

end Tx
end Thubo
