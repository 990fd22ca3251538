import Thubo.Pipeline.Calls

/-!
# Where the pushes of a queue are

A condition on the points that some pushes may be at.  One step moves one
push, so the condition is kept when that push meets it at its new point.
-/

namespace Thubo
namespace Tx

/-- The pushes of a kind are only at some points. -/
def Standing (kind : Nat → Since → Prop) (outside : Point → Prop)
    (within : Inside → Prop) (queue : Queue) : Prop :=
  ∀ (call : Nat) (c : Call), queue.calls[call]? = some c →
    kind call c.since →
      outside c.point ∧
        ∀ here, queue.lock = some (.push call here) → within here

variable {queue after : Queue} {kind fewer : Nat → Since → Prop}
variable {outside : Point → Prop} {within : Inside → Prop}

/-- The condition on fewer pushes. -/
theorem Standing.of_fewer (standing : Standing kind outside within queue)
    (less : ∀ call c, queue.calls[call]? = some c →
      fewer call c.since → kind call c.since) :
    Standing fewer outside within queue := by
  intro call c found few
  exact standing call c found (less call c found few)

theorem Standing.stay (standing : Standing kind outside within queue)
    (calls : after.calls = queue.calls)
    (lock : ∀ call here, after.lock = some (.push call here) →
      queue.lock = some (.push call here)) :
    Standing kind outside within after := by
  intro call c found isKind
  rw [calls] at found
  have before := standing call c found isKind
  exact ⟨before.1, fun here locked => before.2 here (lock call here locked)⟩

/-- The push that holds the lock goes on. -/
theorem Standing.inner (standing : Standing kind outside within queue)
    {call : Nat} {there : Inside} (calls : after.calls = queue.calls)
    (lock : after.lock = some (.push call there))
    (next : ∀ c, queue.calls[call]? = some c → kind call c.since →
      within there) : Standing kind outside within after := by
  intro other c found isKind
  rw [calls] at found
  refine ⟨(standing other c found isKind).1, fun here locked => ?_⟩
  rw [lock] at locked
  cases locked
  exact next c found isKind

/-- A push goes on without the lock, or releases it. -/
theorem Standing.goTo (standing : Standing kind outside within queue)
    {call : Nat} {point : Point}
    (calls : after.calls = queue.calls.modify call fun c => c.at point)
    (lock : ∀ call here, after.lock = some (.push call here) →
      queue.lock = some (.push call here))
    (next : ∀ c, queue.calls[call]? = some c → kind call c.since →
      outside point) : Standing kind outside within after := by
  intro other d found isKind
  rw [calls] at found
  rcases getElem?_modify_at found with ⟨c, was, rfl⟩
  have since : (if call = other then c.at point else c).since =
      c.since := by
    split <;> rfl
  rw [since] at isKind
  have before := standing other c was isKind
  refine ⟨?_, fun here locked => before.2 here (lock other here locked)⟩
  split
  · rename_i same
    cases same
    exact next c was isKind
  · exact before.1

/-- A push takes the lock. -/
theorem Standing.enter (standing : Standing kind outside within queue)
    {call turn : Nat}
    (calls : after.calls = queue.calls.modify call fun c =>
      { c with point := .inside, turn := some turn })
    (lock : after.lock = some (.push call .acquire))
    (inside : outside .inside)
    (acquires : within .acquire) : Standing kind outside within after := by
  intro other d found isKind
  rw [calls, List.getElem?_modify, Option.map_eq_map,
    Option.map_eq_some_iff] at found
  rcases found with ⟨c, was, same⟩
  constructor
  · split at same
    · cases same
      exact inside
    · cases same
      exact (standing other _ was isKind).1
  · intro here locked
    rw [lock] at locked
    cases locked
    exact acquires

/-- A push is called. -/
theorem Standing.call (standing : Standing kind outside within queue)
    {msg : Bytes} {qos : QoS} {since : Since}
    (calls : after.calls = queue.calls ++ [⟨msg, qos, since, .entry, none⟩])
    (lock : after.lock = queue.lock) (entry : outside .entry)
    (holders : ∀ call here, queue.lock = some (.push call here) →
      call < queue.calls.length) :
    Standing kind outside within after := by
  intro call c found isKind
  rw [calls] at found
  rcases getElem?_concat found with was | ⟨rfl, rfl⟩
  · have before := standing call c was isKind
    rw [lock]
    exact before
  · refine ⟨entry, fun here locked => ?_⟩
    rw [lock] at locked
    exact absurd (holders _ here locked) (Nat.lt_irrefl _)

end Tx
end Thubo
