import Thubo.RingBuf.Steps

/-!
# Ring buffers are queues

At each priority the elements come out in the order in which they were pushed
or committed, whatever the handles do in between.  A push at a booked priority
is the exception: it lacks the test of `book` and writes over the booked
element.
-/

namespace Thubo
namespace RingBuf
namespace Shared

variable {α : Type} {ring after : Shared α} {p h : Priority}

/-- What is promised of every state. -/
structure Fifo (ring : Shared α) : Prop where
  /-- The elements pulled are the first ones published, in order. -/
  ordered : ∀ p, (ring.log p).pulled <+: (ring.log p).pushed.map some
  /-- A booked element is not published before its commit. -/
  booked : ∀ p,
    (ring.writers (ring.kind.writer p)).handle.localIdxW.booked p = true →
      ∃ t, (ring.log p).handed = (ring.log p).pushed ++ [t]
  /-- The shared indices count what is published. -/
  pushed : ∀ p,
    ring.inner.idxW.index p = BitVec.ofNat 8 (ring.log p).pushed.length
  released : ∀ p,
    ring.inner.idxR.index p = BitVec.ofNat 8 (ring.log p).released

/-- What is promised of every step. -/
structure Orderly (ring : Shared α) (action : Action α) : Prop where
  /-- No unread slot is overwritten. -/
  written : ∀ h spurious p t books, action = .writer h spurious →
    (ring.writers h).point = .write p t books →
      ring.inner.getElem p (ring.writers h).handle.localIdxW = none
  /-- No empty slot is read. -/
  taken : ∀ h spurious p, action = .reader h spurious →
    (ring.readers h).point = .take p →
      ∃ t, ring.inner.getElem p (ring.readers h).handle.localIdxR = some t
  /-- A push or a booking finds no room only when there is none. -/
  refused : ∀ h spurious p t books, action = .writer h spurious →
    (ring.writers h).point = .load p t books →
      ((ring.loadIdxR h p t books).writers h).point = .idle →
        (ring.log p).pushed.length =
          (ring.log p).released + 2 ^ ring.inner.exponent
  /-- The other priorities keep their indices and flags. -/
  apart : ∀ after, ring.step action = some after →
    ∀ q, ring.place action ≠ some q →
      after.inner.idxR.index q = ring.inner.idxR.index q ∧
        after.inner.idxW.index q = ring.inner.idxW.index q ∧
        after.inner.idxW.booked q = ring.inner.idxW.booked q

theorem Sound.fifo (sound : ring.Sound) : ring.Fifo where
  ordered p := (sound.lanes p).ordered
  booked p booked := by
    have lane := sound.lanes p
    have waiting := lane.waiting
    have reserved : (ring.lane p).reserved = true := booked
    rw [reserved, Bool.or_true, Option.isSome_iff_exists] at waiting
    rcases waiting with ⟨t, pending⟩
    refine ⟨t, lane.handed.trans ?_⟩
    rw [pending]
    rfl
  pushed p := (sound.lanes p).written
  released p := (sound.lanes p).read

/-- A writer writes into a free slot. -/
theorem Sound.free (sound : ring.Sound) {t : α} {books : Bool}
    (point : (ring.writers h).point = .write p t books) :
    ring.inner.getElem p (ring.writers h).handle.localIdxW = none := by
  have writing := sound.writing h
  rw [point] at writing
  rcases writing with ⟨own, free, shows⟩
  have quiet : (ring.lane p).Quiet := quiet_of own (by rw [point]; rfl) free
  subst own
  exact (sound.lanes p).free quiet shows

/-- A reader takes an element. -/
theorem Sound.found (sound : ring.Sound)
    (point : (ring.readers h).point = .take p) :
    ∃ t, ring.inner.getElem p (ring.readers h).handle.localIdxR =
      some t := by
  have reading := sound.reading h
  rw [point] at reading
  rcases reading with ⟨own, shows⟩
  rcases (sound.lanes p).found shows with ⟨more, found⟩
  subst own
  exact ⟨_, found⟩

/-- A writer that gives up has seen a full ring. -/
theorem Sound.full (sound : ring.Sound) {t : α} {books : Bool}
    (point : (ring.writers h).point = .load p t books)
    (refused : ((ring.loadIdxR h p t books).writers h).point = .idle) :
    (ring.log p).pushed.length =
      (ring.log p).released + 2 ^ ring.inner.exponent := by
  have writing := sound.writing h
  rw [point] at writing
  rcases writing with ⟨own, free⟩
  have quiet : (ring.lane p).Quiet := quiet_of own (by rw [point]; rfl) free
  apply (sound.lanes p).full ring.narrow quiet.1
  rw [loadIdxR_point] at refused
  split at refused
  · rename_i full
    subst own
    exact not_not.2 (beq_iff_eq.1 full)
  · cases refused

theorem Sound.orderly (sound : ring.Sound) {action : Action α}
    (admitted : ring.Admits action) : ring.Orderly action where
  written _ _ _ _ _ _ point := sound.free point
  taken _ _ _ _ point := sound.found point
  refused _ _ _ _ _ _ point refused := sound.full point refused
  apart _ stepped q elsewhere :=
    ((sound.step admitted stepped).looks q elsewhere).published

/--
In a run of any configuration in which no push starts at a booked priority,
the ring is a queue at each priority, in every state and with every step.
-/
theorem fifo_of_run {kind : Kind} {exponent : Nat} {small : exponent ≤ 7}
    {actions : List (Action α)}
    (admitted : Runs.Guarded step Admits (new kind exponent small) actions)
    (ran : Runs.run step (new kind exponent small) actions = some after) :
    after.Fifo ∧
      ∀ action, after.Admits action → after.Orderly action := by
  have sound := sound_of_run admitted ran
  exact ⟨sound.fifo, fun _ admitted => sound.orderly admitted⟩

instance : DecidableRel (Admits (α := α)) := fun ring action =>
  match action with
  | .push p _ =>
      inferInstanceAs (Decidable ((ring.writers
        (ring.kind.writer p)).handle.localIdxW.booked p = false))
  | .book _ _ => inferInstanceAs (Decidable True)
  | .commit _ => inferInstanceAs (Decidable True)
  | .writer _ _ => inferInstanceAs (Decidable True)
  | .pull => inferInstanceAs (Decidable True)
  | .pullPriority _ => inferInstanceAs (Decidable True)
  | .reader _ _ => inferInstanceAs (Decidable True)

/--
A committed booking whose exchange fails once, a push that finds the ring of
one slot full while the reader holds the slot back, and one that does not.
-/
def mixed : List (Action Nat) :=
  [.book .high 1, .writer .high false, .writer .high false, .commit .high,
    .writer .high false, .writer .high true, .writer .high false, .pull,
    .reader .high false, .reader .high false, .push .high 2,
    .writer .high false, .reader .high false, .push .high 2,
    .writer .high false, .writer .high false, .writer .high false,
    .writer .high false, .pullPriority .high, .reader .high false,
    .reader .high false, .reader .high false]

theorem fifo_of_run_mixed :
    ∃ after, Runs.run step (new .mpsc 0 (by decide)) mixed = some after ∧
      (after.log .high).pulled = [some 1, some 2] ∧ after.Fifo := by
  have passed : (Runs.run step (new .mpsc 0 (by decide)) mixed).any
      (fun ring => Decidable.decide
        ((ring.log .high).pulled = [some 1, some 2])) = true := by
    decide +kernel
  rcases Runs.exists_of_any passed with ⟨after, ran, pulled⟩
  have admitted : Runs.Guarded step Admits (new .mpsc 0 (by decide))
      mixed := by
    decide +kernel
  exact ⟨after, ran, of_decide_eq_true pulled,
    (fifo_of_run admitted ran).1⟩

/-- A push after a booking that is not committed, and then the commit. -/
def overwriting : List (Action Nat) :=
  [.book .high 1, .writer .high false, .writer .high false, .push .high 2,
    .writer .high false, .writer .high false, .writer .high false,
    .commit .high, .writer .high false, .writer .high false,
    .pullPriority .high, .reader .high false, .reader .high false,
    .reader .high false, .pullPriority .high, .reader .high false]

/-- The push overwrites the booked element, and an empty slot is read. -/
theorem overwriting_not_fifo :
    ∃ after, Runs.run step (new .mpsc 1 (by decide)) overwriting =
        some after ∧
      (after.log .high).pulled = [some 2, none] ∧ ¬ after.Fifo := by
  have passed : (Runs.run step (new .mpsc 1 (by decide)) overwriting).any
      (fun ring => Decidable.decide
        ((ring.log .high).pulled = [some 2, none])) = true := by
    decide +kernel
  rcases Runs.exists_of_any passed with ⟨after, ran, pulled⟩
  have pulled := of_decide_eq_true pulled
  refine ⟨after, ran, pulled, ?_⟩
  intro fifo
  have ordered := fifo.ordered .high
  rw [pulled] at ordered
  have member := ordered.subset (List.mem_cons_of_mem _ List.mem_cons_self)
  simp at member

end Shared
end RingBuf
end Thubo
