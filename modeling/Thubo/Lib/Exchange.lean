import Mathlib.Data.List.Infix
import Thubo.Lib.Lane

/-!
# Queues between two parties that publish their indices

A writer fills slots and a reader empties them.  Each counts on its own index,
publishes it afterwards, and decides on a copy of the other published index,
which may be stale.  The writer may also reserve the next slot: it fills the
slot at once, marks the published index, and publishes the element later.
-/

namespace Thubo

variable {α : Type} {width : Nat}

/-- What has happened to the elements. -/
structure Exchange.Log (α : Type) where
  /-- The elements that the writer has taken. -/
  handed : List α
  /-- The elements that the writer has published. -/
  pushed : List α
  /-- The element that is written and not published. -/
  pending : Option α
  /-- What the reader has found in the slots that it has emptied. -/
  pulled : List (Option α)
  /-- How many emptied slots the reader has published. -/
  released : Nat

structure Exchange (width : Nat) (α : Type) where
  slots : BitVec width → Option α
  /-- The published indices and the published mark. -/
  read : BitVec width
  written : BitVec width
  marked : Bool
  /-- The writer's own index and its copy of the read index. -/
  ownWritten : BitVec width
  seenRead : BitVec width
  /-- The writer has reserved the slot of its index. -/
  reserved : Bool
  /-- The reader's own index and its copy of the written index. -/
  ownRead : BitVec width
  seenWritten : BitVec width
  /-- The writer is about to mark the published index. -/
  marking : Bool
  /-- The writer is about to publish its index. -/
  publishing : Bool
  /-- The reader is about to publish its index. -/
  releasing : Bool
  log : Exchange.Log α

namespace Exchange

/-! ## The steps of the two parties -/

def new : Exchange width α where
  slots _ := none
  read := 0
  written := 0
  marked := false
  ownWritten := 0
  seenRead := 0
  reserved := false
  ownRead := 0
  seenWritten := 0
  marking := false
  publishing := false
  releasing := false
  log := ⟨[], [], none, [], 0⟩

/-- The slot that the writer fills next. -/
def writerSlot (k : Nat) (x : Exchange width α) : BitVec width :=
  Lane.position k x.ownWritten

/-- The slot that the reader empties next. -/
def readerSlot (k : Nat) (x : Exchange width α) : BitVec width :=
  Lane.position k x.ownRead

def loadRead (x : Exchange width α) : Exchange width α :=
  { x with seenRead := x.read }

def loadWritten (x : Exchange width α) : Exchange width α :=
  { x with seenWritten := x.written }

/-- The writer fills its slot. -/
def fill (k : Nat) (x : Exchange width α) (t : α) : Exchange width α :=
  { x with
    slots := Lane.write x.slots (x.writerSlot k) (some t)
    log := { x.log with
      handed := x.log.handed ++ [t]
      pending := some t } }

/-- The writer counts the element that it has filled in. -/
def commit (x : Exchange width α) : Exchange width α :=
  { x with
    ownWritten := x.ownWritten + 1
    reserved := false
    publishing := true }

def put (k : Nat) (x : Exchange width α) (t : α) : Exchange width α :=
  (x.fill k t).commit

def reserve (k : Nat) (x : Exchange width α) (t : α) : Exchange width α :=
  { x.fill k t with reserved := true, marking := true }

def mark (x : Exchange width α) : Exchange width α :=
  { x with marked := true, marking := false }

def publish (x : Exchange width α) : Exchange width α :=
  { x with
    written := x.ownWritten
    marked := x.reserved
    publishing := false
    log := { x.log with
      pushed := x.log.pushed ++ x.log.pending.toList
      pending := none } }

/-- The reader empties its slot. -/
def empty (k : Nat) (x : Exchange width α) : Exchange width α :=
  { x with
    slots := Lane.write x.slots (x.readerSlot k) none
    log := { x.log with
      pulled := x.log.pulled ++ [x.slots (x.readerSlot k)] } }

def take (k : Nat) (x : Exchange width α) : Exchange width α :=
  { x.empty k with ownRead := x.ownRead + 1, releasing := true }

def release (x : Exchange width α) : Exchange width α :=
  { x with
    read := x.ownRead
    releasing := false
    log := { x.log with released := x.log.released + 1 } }

/-! ## Counted indices -/

/-- Two counts less than a turn apart have different indices. -/
theorem index_inj {k : Nat} (narrow : k < width) {m n : Nat}
    (ordered : m ≤ n) (near : n ≤ m + 2 ^ k) :
    BitVec.ofNat width m = BitVec.ofNat width n ↔ m = n := by
  rcases Nat.exists_eq_add_of_le ordered with ⟨d, rfl⟩
  have few := Lane.lt_of_le narrow (Nat.le_of_add_le_add_left near)
  have same := @Lane.add_right_inj width (BitVec.ofNat width m) 0 d
    (Nat.two_pow_pos width) few
  rw [BitVec.add_zero, ← BitVec.ofNat_add] at same
  rw [same]
  omega

theorem index_succ (n : Nat) :
    BitVec.ofNat width n + 1 = BitVec.ofNat width (n + 1) :=
  (BitVec.ofNat_add n 1).symm

/-- The distance between the indices of two counts. -/
theorem index_sub (m n : Nat) :
    BitVec.ofNat width (m + n) - BitVec.ofNat width m =
      BitVec.ofNat width n := by
  rw [BitVec.ofNat_add, Lane.sub_eq]

/-- The counts of one turn have different slots. -/
theorem slot_inj {k : Nat} (narrow : k < width) {base m n : Nat}
    (left : base ≤ m ∧ m < base + 2 ^ k)
    (right : base ≤ n ∧ n < base + 2 ^ k)
    (same : Lane.position k (BitVec.ofNat width m) =
      Lane.position k (BitVec.ofNat width n)) : m = n := by
  rcases Nat.exists_eq_add_of_le left.1 with ⟨a, rfl⟩
  rcases Nat.exists_eq_add_of_le right.1 with ⟨b, rfl⟩
  rw [BitVec.ofNat_add, BitVec.ofNat_add] at same
  have equal := Lane.position_inj (Nat.le_of_lt narrow)
    (Nat.lt_of_add_lt_add_left left.2) (Nat.lt_of_add_lt_add_left right.2)
    same
  rw [equal]

/-- A turn ends in the slot where it starts. -/
theorem slot_turn {k : Nat} (narrow : k < width) (base : Nat) :
    Lane.position k (BitVec.ofNat width (base + 2 ^ k)) =
      Lane.position k (BitVec.ofNat width base) := by
  have divides := Nat.pow_dvd_pow 2 (Nat.le_of_lt narrow)
  apply BitVec.eq_of_toNat_eq
  rw [Lane.toNat_position (Nat.le_of_lt narrow),
    Lane.toNat_position (Nat.le_of_lt narrow), BitVec.toNat_ofNat,
    BitVec.toNat_ofNat, Nat.mod_mod_of_dvd _ divides,
    Nat.mod_mod_of_dvd _ divides, Nat.add_mod_right]

/-! ## What the slots store -/

/--
One turn of the slots from a count on stores the elements from there on, and
nothing after the last one.
-/
def Stores (k : Nat) (slots : BitVec width → Option α) (base : Nat)
    (elements : List α) : Prop :=
  ∀ i, base ≤ i → i < base + 2 ^ k →
    slots (Lane.position k (BitVec.ofNat width i)) = elements[i]?

variable {k : Nat} {slots : BitVec width → Option α} {base : Nat}
variable {elements : List α}

theorem Stores.concat (stores : Stores k slots base elements)
    (narrow : k < width) (started : base ≤ elements.length)
    (room : elements.length < base + 2 ^ k) (t : α) :
    Stores k
      (Lane.write slots
        (Lane.position k (BitVec.ofNat width elements.length)) (some t))
      base (elements ++ [t]) := by
  intro i low high
  by_cases here : i = elements.length
  · subst here
    rw [List.getElem?_concat_length]
    exact if_pos rfl
  · have elsewhere :=
      mt (slot_inj narrow ⟨low, high⟩ ⟨started, room⟩) here
    rw [Lane.write, if_neg elsewhere, stores i low high]
    rcases Nat.lt_or_gt_of_ne here with before | after
    · rw [List.getElem?_append_left before]
    · rw [List.getElem?_eq_none (Nat.le_of_lt after),
        List.getElem?_eq_none]
      rw [List.length_append]
      exact after

theorem Stores.drop (stores : Stores k slots base elements)
    (narrow : k < width) (few : elements.length ≤ base + 2 ^ k) :
    Stores k
      (Lane.write slots (Lane.position k (BitVec.ofNat width base)) none)
      (base + 1) elements := by
  intro i low high
  by_cases last : i = base + 2 ^ k
  · rw [last, slot_turn narrow, List.getElem?_eq_none few]
    exact if_pos rfl
  · have inside : base ≤ i ∧ i < base + 2 ^ k := by omega
    have first : base ≤ base ∧ base < base + 2 ^ k := by omega
    have elsewhere := mt (slot_inj narrow inside first) (by omega)
    rw [Lane.write, if_neg elsewhere]
    exact stores i inside.1 inside.2

/-! ## The invariant -/

/-- What holds whenever the writer fills free slots only. -/
structure Sound (k : Nat) (x : Exchange width α) : Prop where
  /-- The indices count elements. -/
  written : x.written = BitVec.ofNat width x.log.pushed.length
  read : x.read = BitVec.ofNat width x.log.released
  ownWritten : x.ownWritten =
    BitVec.ofNat width (x.log.pushed.length + x.publishing.toNat)
  ownRead : x.ownRead = BitVec.ofNat width x.log.pulled.length
  /-- A copy shows an earlier count. -/
  seenRead : ∃ n ≤ x.log.released, x.seenRead = BitVec.ofNat width n ∧
    x.log.handed.length ≤ n + 2 ^ k
  seenWritten : ∃ n ≤ x.log.pushed.length, x.log.pulled.length ≤ n ∧
    x.seenWritten = BitVec.ofNat width n
  /-- The reader gives back the slots one by one. -/
  emptied : x.log.pulled.length = x.log.released + x.releasing.toNat
  /-- The element taken last may be waiting to be published. -/
  handed : x.log.handed = x.log.pushed ++ x.log.pending.toList
  waiting : x.log.pending.isSome = (x.publishing || x.reserved)
  either : (x.publishing && x.reserved) = false
  /-- The published mark follows the writer's own. -/
  marking : x.marking = true → x.reserved = true
  marked : x.marking = false → x.publishing = false → x.marked = x.reserved
  stored : Stores k x.slots x.log.pulled.length x.log.handed
  /-- The elements come out in order. -/
  ordered : x.log.pulled <+: x.log.pushed.map some

/-- The writer has neither reserved a slot nor anything to publish. -/
def Quiet (x : Exchange width α) : Prop :=
  x.publishing = false ∧ x.reserved = false

/-- The writer's copy shows room. -/
def ShowsRoom (k : Nat) (x : Exchange width α) : Prop :=
  x.ownWritten - x.seenRead ≠ BitVec.ofNat width (2 ^ k)

/-- The reader's copy shows an element. -/
def ShowsElement (x : Exchange width α) : Prop :=
  x.ownRead ≠ x.seenWritten

variable {x : Exchange width α}

theorem sound_new : (new : Exchange width α).Sound k where
  written := rfl
  read := rfl
  ownWritten := rfl
  ownRead := rfl
  seenRead := ⟨0, Nat.le_refl _, rfl, Nat.zero_le _⟩
  seenWritten := ⟨0, Nat.le_refl _, Nat.le_refl _, rfl⟩
  emptied := rfl
  handed := rfl
  waiting := rfl
  either := rfl
  marking impossible := by cases impossible
  marked _ _ := rfl
  stored _ _ _ := rfl
  ordered := List.prefix_refl _

/-! ## What the parties can rely on -/

theorem Sound.pulled_le (sound : x.Sound k) :
    x.log.pulled.length ≤ x.log.pushed.length := by
  rcases sound.seenWritten with ⟨n, few, many, _⟩
  exact Nat.le_trans many few

theorem Sound.released_le (sound : x.Sound k) :
    x.log.released ≤ x.log.pulled.length := by
  rw [sound.emptied]
  exact Nat.le_add_right ..

/-- The elements that have not been given back fit the slots. -/
theorem Sound.handed_le (sound : x.Sound k) :
    x.log.handed.length ≤ x.log.released + 2 ^ k := by
  rcases sound.seenRead with ⟨n, few, _, fits⟩
  omega

theorem Sound.pushed_begins (sound : x.Sound k) :
    x.log.pushed <+: x.log.handed := by
  rw [sound.handed]
  exact List.prefix_append ..

theorem Sound.pushed_le (sound : x.Sound k) :
    x.log.pushed.length ≤ x.log.handed.length :=
  sound.pushed_begins.length_le

/-- What is published is what was pulled and what is left. -/
theorem Sound.pushed_eq (sound : x.Sound k) :
    x.log.pulled ++
        ((x.log.handed.drop x.log.pulled.length).take
          (x.log.pushed.length - x.log.pulled.length)).map some =
      x.log.pushed.map some := by
  have first := List.prefix_iff_eq_take.1 sound.ordered
  have rest : (x.log.handed.drop x.log.pulled.length).take
        (x.log.pushed.length - x.log.pulled.length) =
      x.log.pushed.drop x.log.pulled.length := by
    rw [sound.handed, List.drop_append_of_le_length sound.pulled_le]
    exact List.take_left' (List.length_drop ..)
  rw [rest, List.map_drop]
  nth_rewrite 1 [first]
  exact List.take_append_drop ..

theorem Sound.pending_eq (sound : x.Sound k) (quiet : x.Quiet) :
    x.log.pending = none := by
  have waiting := sound.waiting
  rw [quiet.1, quiet.2] at waiting
  exact Option.isSome_eq_false_iff.1 waiting |> Option.isNone_iff_eq_none.1

/-- A writer with nothing to publish has published everything. -/
theorem Sound.handed_eq (sound : x.Sound k) (quiet : x.Quiet) :
    x.log.handed = x.log.pushed := by
  rw [sound.handed, sound.pending_eq quiet]
  exact List.append_nil _

theorem Sound.ownWritten_eq (sound : x.Sound k)
    (quiet : x.publishing = false) : x.ownWritten = x.written := by
  rw [sound.ownWritten, sound.written, quiet]
  rfl

theorem Sound.ownRead_eq (sound : x.Sound k)
    (quiet : x.releasing = false) : x.ownRead = x.read := by
  rw [sound.ownRead, sound.read, sound.emptied, quiet]
  rfl

/-- A stale copy shows room only where there is room. -/
theorem Sound.room (sound : x.Sound k) (quiet : x.Quiet)
    (shows : x.ShowsRoom k) :
    ∃ n ≤ x.log.released, x.seenRead = BitVec.ofNat width n ∧
      x.log.handed.length < n + 2 ^ k := by
  rcases sound.seenRead with ⟨n, few, same, fits⟩
  refine ⟨n, few, same, Nat.lt_of_le_of_ne fits ?_⟩
  intro full
  apply shows
  rw [sound.ownWritten, quiet.1, ← sound.handed_eq quiet, full, same]
  exact index_sub ..

/-- The writer fills a free slot. -/
theorem Sound.free (sound : x.Sound k) (quiet : x.Quiet)
    (shows : x.ShowsRoom k) : x.slots (x.writerSlot k) = none := by
  rcases sound.room quiet shows with ⟨n, few, _, room⟩
  have taken := sound.pulled_le
  have given := sound.released_le
  rw [← sound.handed_eq quiet] at taken
  rw [writerSlot, sound.ownWritten, quiet.1, ← sound.handed_eq quiet]
  rw [Bool.toNat_false, Nat.add_zero,
    sound.stored _ taken (by omega)]
  exact List.getElem?_eq_none (Nat.le_refl _)

/-- With a fresh copy the writer finds no room only if there is none. -/
theorem Sound.full (sound : x.Sound k) (narrow : k < width)
    (quiet : x.publishing = false)
    (shows : ¬ x.loadRead.ShowsRoom k) :
    x.log.pushed.length = x.log.released + 2 ^ k := by
  have fits := sound.handed_le
  have most := sound.pushed_le
  have taken := sound.pulled_le
  have given := sound.released_le
  rcases Nat.exists_eq_add_of_le (Nat.le_trans given taken) with ⟨d, count⟩
  have apart : x.ownWritten - x.read = BitVec.ofNat width d := by
    rw [sound.ownWritten, sound.read, quiet, count]
    exact index_sub ..
  rw [ShowsRoom, loadRead, apart, ne_eq, not_not,
    index_inj narrow (by omega) (by omega)] at shows
  rw [count, shows]

/-- The reader empties a slot with the next element. -/
theorem Sound.found (sound : x.Sound k) (shows : x.ShowsElement) :
    ∃ more : x.log.pulled.length < x.log.pushed.length,
      x.slots (x.readerSlot k) = some x.log.pushed[x.log.pulled.length] := by
  rcases sound.seenWritten with ⟨n, few, many, same⟩
  have more : x.log.pulled.length < x.log.pushed.length := by
    apply Nat.lt_of_lt_of_le (Nat.lt_of_le_of_ne many _) few
    intro equal
    apply shows
    rw [sound.ownRead, same, equal]
  refine ⟨more, ?_⟩
  rw [readerSlot, sound.ownRead, sound.stored _ (Nat.le_refl _)
    (Nat.lt_add_of_pos_right (Nat.two_pow_pos k)), sound.handed,
    List.getElem?_append_left more, List.getElem?_eq_getElem more]

/-! ## The steps keep the invariant -/

theorem Sound.loadRead (sound : x.Sound k) : x.loadRead.Sound k :=
  { sound with
    seenRead := ⟨_, Nat.le_refl _, sound.read, sound.handed_le⟩ }

theorem Sound.loadWritten (sound : x.Sound k) : x.loadWritten.Sound k :=
  { sound with
    seenWritten :=
      ⟨_, Nat.le_refl _, sound.pulled_le, sound.written⟩ }

/-- What stays true when the writer fills a free slot. -/
theorem Sound.stored_fill (sound : x.Sound k) (narrow : k < width)
    (quiet : x.Quiet) (shows : x.ShowsRoom k) (t : α) :
    Stores k (x.fill k t).slots x.log.pulled.length
      (x.log.handed ++ [t]) := by
  rcases sound.room quiet shows with ⟨n, few, _, room⟩
  have taken := sound.pulled_le
  have given := sound.released_le
  have index : x.ownWritten = BitVec.ofNat width x.log.handed.length := by
    rw [sound.ownWritten, quiet.1, sound.handed_eq quiet]
    rfl
  rw [← sound.handed_eq quiet] at taken
  have stored := sound.stored.concat narrow taken (by omega) t
  rw [← index] at stored
  exact stored

theorem Sound.seenRead_fill (sound : x.Sound k) (quiet : x.Quiet)
    (shows : x.ShowsRoom k) (t : α) :
    ∃ n ≤ x.log.released, x.seenRead = BitVec.ofNat width n ∧
      (x.log.handed ++ [t]).length ≤ n + 2 ^ k := by
  rcases sound.room quiet shows with ⟨n, few, same, room⟩
  refine ⟨n, few, same, ?_⟩
  rw [List.length_append]
  exact room

theorem Sound.put (sound : x.Sound k) (narrow : k < width)
    (quiet : x.Quiet) (shows : x.ShowsRoom k) (t : α) :
    (x.put k t).Sound k :=
  { sound with
    ownWritten := by
      change x.ownWritten + 1 = _
      rw [sound.ownWritten, quiet.1, index_succ]
      rfl
    seenRead := sound.seenRead_fill quiet shows t
    handed := congrArg (· ++ [t]) (sound.handed_eq quiet)
    waiting := rfl
    either := rfl
    marking := by
      intro marking
      have reserved := sound.marking marking
      rw [quiet.2] at reserved
      cases reserved
    marked := by
      intro _ impossible
      cases impossible
    stored := sound.stored_fill narrow quiet shows t }

theorem Sound.reserve (sound : x.Sound k) (narrow : k < width)
    (quiet : x.Quiet) (shows : x.ShowsRoom k) (t : α) :
    (x.reserve k t).Sound k :=
  { sound with
    seenRead := sound.seenRead_fill quiet shows t
    handed := congrArg (· ++ [t]) (sound.handed_eq quiet)
    waiting := (Bool.or_true _).symm
    either := by
      change (x.publishing && true) = false
      rw [quiet.1]
      rfl
    marking := fun _ => rfl
    marked := by
      intro impossible
      cases impossible
    stored := sound.stored_fill narrow quiet shows t }

theorem Sound.mark (sound : x.Sound k) (marking : x.marking = true) :
    x.mark.Sound k :=
  { sound with
    marking := by
      intro impossible
      cases impossible
    marked := fun _ _ => (sound.marking marking).symm }

/-- A reserved element is counted and still to be published. -/
theorem Sound.commit (sound : x.Sound k) (reserved : x.reserved = true)
    (settled : x.marking = false) : x.commit.Sound k := by
  have quiet : x.publishing = false := by
    have either := sound.either
    rwa [reserved, Bool.and_true] at either
  exact
    { sound with
      ownWritten := by
        change x.ownWritten + 1 = _
        rw [sound.ownWritten, quiet, index_succ]
        rfl
      waiting := by
        change x.log.pending.isSome = _
        rw [sound.waiting, reserved, quiet]
        rfl
      either := rfl
      marking := by
        intro marking
        change x.marking = true at marking
        rw [settled] at marking
        cases marking
      marked := by
        intro _ impossible
        cases impossible }

theorem Sound.publish (sound : x.Sound k)
    (publishing : x.publishing = true) : x.publish.Sound k := by
  have waiting := sound.waiting
  rw [publishing, Bool.true_or, Option.isSome_iff_exists] at waiting
  rcases waiting with ⟨t, pending⟩
  have reserved : x.reserved = false := by
    have either := sound.either
    rwa [publishing, Bool.true_and] at either
  have pushed : (x.publish).log.pushed = x.log.pushed ++ [t] := by
    change _ ++ x.log.pending.toList = _
    rw [pending]
    rfl
  have length : (x.publish).log.pushed.length =
      x.log.pushed.length + 1 := by
    rw [pushed, List.length_append]
    rfl
  exact
    { sound with
      written := by
        change x.ownWritten = _
        rw [sound.ownWritten, publishing, length]
        rfl
      ownWritten := by
        change x.ownWritten = _
        rw [sound.ownWritten, publishing, length]
        rfl
      seenWritten := by
        rcases sound.seenWritten with ⟨n, few, many, same⟩
        refine ⟨n, ?_, many, same⟩
        rw [length]
        exact Nat.le_succ_of_le few
      handed := by
        change x.log.handed = _
        rw [sound.handed, pushed, pending]
        exact (List.append_nil _).symm
      waiting := by
        change none.isSome = (false || x.reserved)
        rw [reserved]
        rfl
      either := rfl
      marked := fun _ _ => rfl
      ordered := by
        rw [pushed, List.map_append]
        exact sound.ordered.trans (List.prefix_append ..) }

theorem Sound.take (sound : x.Sound k) (narrow : k < width)
    (quiet : x.releasing = false) (shows : x.ShowsElement) :
    (x.take k).Sound k := by
  rcases sound.found shows with ⟨more, found⟩
  have length : (x.take k).log.pulled.length =
      x.log.pulled.length + 1 := by
    change (_ ++ [_]).length = _
    rw [List.length_append]
    rfl
  exact
    { sound with
      ownRead := by
        change x.ownRead + 1 = _
        rw [sound.ownRead, length, index_succ]
      seenWritten := by
        rcases sound.seenWritten with ⟨n, few, many, same⟩
        refine ⟨n, few, ?_, same⟩
        rw [length]
        apply Nat.lt_of_le_of_ne many
        intro equal
        apply shows
        rw [sound.ownRead, same, equal]
      emptied := by
        rw [length, sound.emptied, quiet]
        rfl
      stored := by
        rw [length]
        have given := sound.released_le
        have stored := sound.stored.drop narrow
          (Nat.le_trans sound.handed_le (by omega))
        rw [← sound.ownRead] at stored
        exact stored
      ordered := by
        change x.log.pulled ++ [x.slots (x.readerSlot k)] <+: _
        rw [found]
        have next := List.concat_get_prefix sound.ordered
          (by rwa [List.length_map])
        rwa [List.get_eq_getElem, List.getElem_map] at next }

theorem Sound.release (sound : x.Sound k)
    (releasing : x.releasing = true) : x.release.Sound k :=
  { sound with
    read := by
      change x.ownRead = _
      rw [sound.ownRead, sound.emptied, releasing]
      rfl
    seenRead := by
      rcases sound.seenRead with ⟨n, few, same, fits⟩
      exact ⟨n, Nat.le_succ_of_le few, same, fits⟩
    emptied := by
      change x.log.pulled.length = x.log.released + 1 + 0
      rw [sound.emptied, releasing]
      rfl }

/-! ## Steps of either party -/

/-- A step that at most loads what the other party has published. -/
inductive Looks (x : Exchange width α) : Exchange width α → Prop
  | stay : Looks x x
  | loadRead : Looks x x.loadRead
  | loadWritten : Looks x x.loadWritten

/-- A step of the writer or of the reader. -/
inductive Moves (k : Nat) (x : Exchange width α) :
    Exchange width α → Prop
  | looks {y : Exchange width α} (looks : Looks x y) : Moves k x y
  | put (quiet : x.Quiet) (shows : x.ShowsRoom k) (t : α) :
      Moves k x (x.put k t)
  | reserve (quiet : x.Quiet) (shows : x.ShowsRoom k) (t : α) :
      Moves k x (x.reserve k t)
  | mark (marking : x.marking = true) : Moves k x x.mark
  | commit (reserved : x.reserved = true)
      (settled : x.marking = false) : Moves k x x.commit
  | publish (publishing : x.publishing = true) : Moves k x x.publish
  | take (quiet : x.releasing = false) (shows : x.ShowsElement) :
      Moves k x (x.take k)
  | release (releasing : x.releasing = true) : Moves k x x.release

variable {y : Exchange width α}

theorem Looks.sound (looks : Looks x y) (sound : x.Sound k) :
    y.Sound k := by
  cases looks with
  | stay => exact sound
  | loadRead => exact sound.loadRead
  | loadWritten => exact sound.loadWritten

theorem Moves.sound (moves : Moves k x y) (narrow : k < width)
    (sound : x.Sound k) : y.Sound k := by
  cases moves with
  | looks looks => exact looks.sound sound
  | put quiet shows t => exact sound.put narrow quiet shows t
  | reserve quiet shows t => exact sound.reserve narrow quiet shows t
  | mark marking => exact sound.mark marking
  | commit reserved settled => exact sound.commit reserved settled
  | publish publishing => exact sound.publish publishing
  | take quiet shows => exact sound.take narrow quiet shows
  | release releasing => exact sound.release releasing

/-- A look changes nothing that is published. -/
theorem Looks.published (looks : Looks x y) :
    y.read = x.read ∧ y.written = x.written ∧ y.marked = x.marked := by
  cases looks <;> exact ⟨rfl, rfl, rfl⟩

end Exchange
end Thubo
