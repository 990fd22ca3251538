import Thubo.RingBuf.Fifo

/-!
# Who owns the elements of a ring buffer

When the last handle is gone, the ring drops what lies between the two shared
indices.  Together with what has been pulled, these are the elements that were
taken in, unless one is booked: the walk ends before it.
-/

namespace Thubo
namespace RingBuf

/-! ## Dropping a ring -/

/-- The state of `drop`: the ring, its copy of the read index, the result. -/
structure Dropping (α : Type) where
  inner : RingBuffer α
  idxR : Idx
  /-- What was found in the slots whose content was dropped. -/
  dropped : Priority → List (Option α)

namespace Dropping

variable {α : Type}

/-- The body of the loop. -/
def next (p : Priority) (state : Dropping α) : Dropping α where
  inner := state.inner.setElem p state.idxR none
  idxR := state.idxR.increment p
  dropped := Priority.update state.dropped p
    (state.dropped p ++ [state.inner.getElem p state.idxR])

/-- The loop over the slots of a priority, with a bound on its turns. -/
def loop (p : Priority) (idxW : Idx) :
    Nat → Dropping α → Option (Dropping α)
  | 0, _ => none
  | fuel + 1, state =>
      if state.idxR.index p = idxW.index p then
        some state
      else
        loop p idxW fuel (state.next p)

/-- The loop over the priorities. -/
def all (idxW : Idx) (fuel : Nat) :
    List Priority → Dropping α → Option (Dropping α)
  | [], state => some state
  | p :: rest, state =>
      match loop p idxW fuel state with
      | none => none
      | some after => all idxW fuel rest after

end Dropping

/-- What `drop` finds in the slots that it empties at each priority. -/
def RingBuffer.drop {α : Type} (inner : RingBuffer α) :
    Option (Priority → List (Option α)) :=
  (Dropping.all inner.idxW (2 ^ 8) Priority.ALL
    ⟨inner, inner.idxR, fun _ => []⟩).map (·.dropped)

namespace Dropping

variable {α : Type} {state after : Dropping α} {p q : Priority}
variable {idxW : Idx}

/-- The slots of a priority from its read index on store these elements. -/
structure Left (state : Dropping α) (p : Priority) (base : Nat)
    (elements : List α) : Prop where
  index : state.idxR.index p = BitVec.ofNat 8 base
  stored : Exchange.Stores state.inner.exponent (state.inner.slots p) base
    elements
  few : elements.length ≤ base + 2 ^ state.inner.exponent

theorem narrow (state : Dropping α) : state.inner.exponent < 8 :=
  Nat.lt_succ_of_le state.inner.small

theorem Left.next {base : Nat} {elements : List α}
    (left : state.Left p base elements) :
    (state.next p).Left p (base + 1) elements where
  index := by
    rw [Dropping.next, Idx.index_increment, if_pos rfl, left.index,
      Exchange.index_succ]
  stored := by
    have stored := left.stored.drop state.narrow left.few
    rw [← left.index] at stored
    simpa only [Dropping.next, RingBuffer.setElem, RingBuffer.slot,
      Priority.update_same] using stored
  few := Nat.le_trans left.few (by
    change base + _ ≤ base + 1 + 2 ^ state.inner.exponent
    omega)

theorem Left.elsewhere {base : Nat} {elements : List α}
    (left : state.Left q base elements) (other : q ≠ p) :
    (state.next p).Left q base elements where
  index := by
    rw [Dropping.next, Idx.index_increment, if_neg other]
    exact left.index
  stored := by
    simpa only [Dropping.next, RingBuffer.setElem,
      Priority.update_other _ other] using left.stored
  few := left.few

/-- The loop finds the next element in the slot that it empties. -/
theorem Left.getElem_eq {base : Nat} {elements : List α}
    (left : state.Left p base elements) (inside : base < elements.length) :
    state.inner.getElem p state.idxR = some elements[base] := by
  rw [RingBuffer.getElem, RingBuffer.slot, left.index,
    left.stored base (Nat.le_refl _)
      (Nat.lt_add_of_pos_right (Nat.two_pow_pos _)),
    List.getElem?_eq_getElem inside]

/-- The loop drops the elements between two counts and nothing else. -/
theorem Left.loop {elements : List α} {base count fuel : Nat}
    (left : state.Left p base elements)
    (ends : idxW.index p = BitVec.ofNat 8 (base + count))
    (inside : base + count ≤ elements.length)
    (enough : count < fuel) :
    ∃ after, Dropping.loop p idxW fuel state = some after ∧
      after.dropped = Priority.update state.dropped p
        (state.dropped p ++
          ((elements.drop base).take count).map some) ∧
      ∀ q base elements, q ≠ p → state.Left q base elements →
        after.Left q base elements := by
  induction count generalizing state base fuel with
  | zero =>
      cases fuel with
      | zero => cases enough
      | succ fuel =>
          refine ⟨state, ?_, ?_, fun _ _ _ _ kept => kept⟩
          · rw [Dropping.loop, left.index, ends]
            exact if_pos rfl
          · simp
  | succ count hypothesis =>
      cases fuel with
      | zero => cases enough
      | succ fuel =>
          have few := left.few
          have differs : state.idxR.index p ≠ idxW.index p := by
            rw [left.index, ends, ne_eq,
              Exchange.index_inj state.narrow (by omega) (by omega)]
            omega
          have further : idxW.index p =
              BitVec.ofNat 8 (base + 1 + count) := by
            rw [ends, Nat.add_assoc, Nat.add_comm 1]
          rcases hypothesis left.next further (by omega)
            (Nat.lt_of_succ_lt_succ enough) with
            ⟨after, ran, dropped, kept⟩
          refine ⟨after, ?_, ?_, ?_⟩
          · rw [Dropping.loop, if_neg differs]
            exact ran
          · have first : base < elements.length := by omega
            rw [dropped, Dropping.next, left.getElem_eq first,
              List.drop_eq_getElem_cons first, List.take_succ_cons,
              List.map_cons]
            funext q
            by_cases same : q = p
            · subst same
              simp
            · simp [same]
          · intro q base elements other old
            exact kept q base elements other (old.elsewhere other)

/-- The loops drop the elements of their priorities. -/
theorem all_eq {bases counts : Priority → Nat}
    {elements : Priority → List α} {fuel : Nat}
    {priorities : List Priority} (distinct : priorities.Nodup)
    (left : ∀ p ∈ priorities, state.Left p (bases p) (elements p))
    (ends : ∀ p, idxW.index p = BitVec.ofNat 8 (bases p + counts p))
    (inside : ∀ p, bases p + counts p ≤ (elements p).length)
    (enough : ∀ p, counts p < fuel) :
    ∃ after, all idxW fuel priorities state = some after ∧
      ∀ p, after.dropped p =
        if p ∈ priorities then
          state.dropped p ++
            (((elements p).drop (bases p)).take (counts p)).map some
        else
          state.dropped p := by
  induction priorities generalizing state with
  | nil => exact ⟨state, rfl, fun p => (if_neg (List.not_mem_nil)).symm⟩
  | cons first rest hypothesis =>
      rw [List.nodup_cons] at distinct
      rw [List.forall_mem_cons] at left
      rcases left.1.loop (ends first) (inside first) (enough first) with
        ⟨middle, ran, dropped, kept⟩
      have later : ∀ p ∈ rest, middle.Left p (bases p) (elements p) := by
        intro p member
        apply kept p _ _ _ (left.2 p member)
        rintro rfl
        exact distinct.1 member
      rcases hypothesis distinct.2 later with ⟨after, rested, result⟩
      refine ⟨after, ?_, ?_⟩
      · rw [all, ran]
        exact rested
      · intro p
        rw [result, dropped]
        by_cases same : p = first
        · subst same
          simp [distinct.1]
        · simp [same]

end Dropping

namespace Shared

variable {α : Type} {ring after : Shared α} {p : Priority}

/-- No handle is in an operation, so that all may be dropped. -/
structure Idle (ring : Shared α) : Prop where
  writers : ∀ h, (ring.writers h).point = .idle
  readers : ∀ h, (ring.readers h).point = .idle

/--
Every element that the ring has taken in was pulled or is dropped with it,
once, and nothing else was.
-/
def Owned (ring : Shared α) : Prop :=
  ∃ dropped, ring.inner.drop = some dropped ∧
    ∀ p, ((ring.log p).pulled ++ dropped p).Perm
      ((ring.log p).handed.map some)

/-- Without an operation the shared read index counts what was pulled. -/
theorem Sound.left (sound : ring.Sound) (idle : ring.Idle)
    (p : Priority) :
    (Dropping.mk ring.inner ring.inner.idxR fun _ => []).Left p
      (ring.log p).pulled.length (ring.log p).handed where
  index := by
    have quiet : (ring.lane p).releasing = false := by
      rw [lane, idle.readers]
      rfl
    exact ((sound.lanes p).ownRead_eq quiet).symm.trans
      (sound.lanes p).ownRead
  stored := (sound.lanes p).stored
  few := Nat.le_trans (sound.lanes p).handed_le
    (Nat.add_le_add_right (sound.lanes p).released_le _)

/-- The ring drops what was published and not pulled. -/
theorem Sound.drop_eq (sound : ring.Sound) (idle : ring.Idle) :
    ∃ dropped, ring.inner.drop = some dropped ∧
      ∀ p, (ring.log p).pulled ++ dropped p =
        (ring.log p).pushed.map some := by
  have counted : ∀ p, (ring.log p).pulled.length +
      ((ring.log p).pushed.length - (ring.log p).pulled.length) =
        (ring.log p).pushed.length :=
    fun p => Nat.add_sub_cancel' (sound.lanes p).pulled_le
  have ends : ∀ p, ring.inner.idxW.index p =
      BitVec.ofNat 8 ((ring.log p).pulled.length +
        ((ring.log p).pushed.length - (ring.log p).pulled.length)) := by
    intro p
    rw [counted]
    exact (sound.lanes p).written
  have inside : ∀ p, (ring.log p).pulled.length +
      ((ring.log p).pushed.length - (ring.log p).pulled.length) ≤
        (ring.log p).handed.length := by
    intro p
    rw [counted]
    exact (sound.lanes p).pushed_le
  have enough : ∀ p, (ring.log p).pushed.length -
      (ring.log p).pulled.length < 2 ^ 8 := by
    intro p
    have turn : 2 ^ ring.inner.exponent < 2 ^ 8 :=
      Nat.pow_lt_pow_right Nat.one_lt_two ring.narrow
    have few := (sound.left idle p).few
    have bound := inside p
    rw [counted] at bound
    change _ ≤ _ + 2 ^ ring.inner.exponent at few
    omega
  have distinct : Priority.ALL.Nodup := by decide
  rcases Dropping.all_eq distinct (fun p _ => sound.left idle p) ends
    inside enough with ⟨after, ran, result⟩
  refine ⟨after.dropped, ?_, ?_⟩
  · rw [RingBuffer.drop, ran]
    rfl
  · intro p
    rw [result, if_pos (Priority.mem_ALL p), List.nil_append]
    exact (sound.lanes p).pushed_eq

/-- A ring without an operation has an element booked or all published. -/
theorem Sound.booked_iff (sound : ring.Sound) (idle : ring.Idle)
    (p : Priority) :
    ring.inner.idxW.booked p = false ↔
      (ring.log p).handed = (ring.log p).pushed := by
  have lane := sound.lanes p
  have settled : (ring.lane p).marking = false := by
    rw [Shared.lane, idle.writers]
    rfl
  have quiet : (ring.lane p).publishing = false := by
    rw [Shared.lane, idle.writers]
    rfl
  have marked : ring.inner.idxW.booked p = (ring.lane p).reserved :=
    lane.marked settled quiet
  have waiting := lane.waiting
  rw [quiet, Bool.false_or] at waiting
  rw [marked]
  constructor
  · intro free
    exact lane.handed_eq ⟨quiet, free⟩
  · intro same
    have handed := lane.handed
    rw [← waiting, Option.isSome_eq_false_iff, Option.isNone_iff_eq_none]
    have nothing : (ring.lane p).log.pending.toList = [] :=
      List.append_cancel_left (handed.symm.trans
        (same.trans (List.append_nil _).symm))
    exact Option.toList_eq_nil_iff.1 nothing

/--
In a run of any configuration in which no push starts at a booked priority,
and after which all handles are dropped, every element is pulled or dropped
once exactly when nothing is booked at the end.
-/
theorem owned_iff {kind : Kind} {exponent : Nat} {small : exponent ≤ 7}
    {actions : List (Action α)}
    (admitted : Runs.Guarded step Admits (new kind exponent small) actions)
    (ran : Runs.run step (new kind exponent small) actions = some after)
    (idle : after.Idle) :
    after.Owned ↔ ∀ p, after.inner.idxW.booked p = false := by
  have sound := sound_of_run admitted ran
  rcases sound.drop_eq idle with ⟨dropped, drops, together⟩
  constructor
  · rintro ⟨other, found, owned⟩ p
    cases drops.symm.trans found
    rw [sound.booked_iff idle]
    have lengths := (owned p).length_eq
    rw [together, List.length_map, List.length_map] at lengths
    exact ((sound.lanes p).pushed_begins.eq_of_length lengths).symm
  · intro free
    refine ⟨dropped, drops, fun p => ?_⟩
    rw [together, (sound.booked_iff idle p).1 (free p)]

instance [DecidableEq α] (ring : Shared α) : Decidable ring.Idle :=
  decidable_of_iff
    (∀ h ∈ Priority.ALL, (ring.writers h).point = .idle ∧
      (ring.readers h).point = .idle)
    ⟨fun all =>
      ⟨fun h => (all h (Priority.mem_ALL h)).1,
        fun h => (all h (Priority.mem_ALL h)).2⟩,
      fun idle h _ => ⟨idle.writers h, idle.readers h⟩⟩

/-- After elements of one priority were pulled, one of another is left. -/
def leaving : List (Action Nat) :=
  mixed ++ [.push .low 3, .writer .low false, .writer .low false,
    .writer .low false]

theorem owned_iff_leaving :
    ∃ after, Runs.run step (new .mpsc 0 (by decide)) leaving = some after ∧
      (after.log .low).pushed = [3] ∧ after.Owned := by
  have passed : (Runs.run step (new .mpsc 0 (by decide)) leaving).any
      (fun ring => Decidable.decide
        ((ring.log .low).pushed = [3] ∧ ring.Idle ∧
          ∀ p ∈ Priority.ALL, ring.inner.idxW.booked p = false)) = true := by
    decide +kernel
  rcases Runs.exists_of_any passed with ⟨after, ran, found⟩
  rcases of_decide_eq_true found with ⟨pushed, idle, free⟩
  have admitted : Runs.Guarded step Admits (new .mpsc 0 (by decide))
      leaving := by
    decide +kernel
  refine ⟨after, ran, pushed, (owned_iff admitted ran idle).2 ?_⟩
  exact fun p => free p (Priority.mem_ALL p)

/-- An element that is booked when the handles are dropped is lost. -/
theorem booked_not_owned :
    ∃ after, Runs.run step (new .mpsc 0 (by decide))
        [.book .high 1, .writer .high false, .writer .high false] =
          some after ∧
      after.Idle ∧ (after.log .high).handed = [1] ∧ ¬ after.Owned := by
  have passed : (Runs.run step (new .mpsc 0 (by decide))
      [.book .high 1, .writer .high false, .writer .high false]).any
      (fun ring => Decidable.decide
        (ring.Idle ∧ (ring.log .high).handed = [1] ∧
          ring.inner.drop.all fun dropped =>
            ((ring.log .high).pulled ++ dropped .high).isEmpty)) = true := by
    decide +kernel
  rcases Runs.exists_of_any passed with ⟨after, ran, found⟩
  rcases of_decide_eq_true found with ⟨idle, handed, nothing⟩
  refine ⟨after, ran, idle, handed, ?_⟩
  rintro ⟨dropped, drops, owned⟩
  rw [drops, Option.all_some, List.isEmpty_iff] at nothing
  have same := owned .high
  rw [nothing, handed] at same
  cases same.length_eq

end Shared
end RingBuf
end Thubo
