import Mathlib.Algebra.Order.Ring.Nat
import Thubo.Lib.Cursor

/-!
# Protocol types

The values that travel on the wire: priorities and congestion strategies,
the quality-of-service byte that packs both, sequence numbers, and the
headers of frames and fragments.  Each type keeps the bit layout of its
source type, and its accessors read the same bits.
-/

namespace Thubo

/-! ## Priority -/

/-- Message priority levels, from the highest to the lowest. -/
inductive Priority where
  | high
  | medium
  | low
  | background
deriving DecidableEq, Repr

namespace Priority

/-- `Priority as u8`. -/
def toNat : Priority → Nat
  | .high => 0
  | .medium => 1
  | .low => 2
  | .background => 3

/-- Number of priority levels. -/
def NUM : Nat := 4

/-- Number of bits used to encode a priority. -/
def BITS : Nat := 2

/-- The bitmask for the priority bits. -/
def MASK : UInt8 := 0b11

/-- All priority levels in order from highest to lowest. -/
def ALL : List Priority :=
  [.high, .medium, .low, .background]

/--
Reinterpret a byte as a priority.  Callers mask the byte with `MASK` first,
so the last arm is the discriminant `3`.
-/
def fromU8 (value : UInt8) : Priority :=
  match value.toNat with
  | 0 => .high
  | 1 => .medium
  | 2 => .low
  | _ => .background

/-- The level after this one in the order of `ALL`. -/
def lower : Priority → Option Priority
  | .high => some .medium
  | .medium => some .low
  | .low => some .background
  | .background => none

theorem toNat_lt (priority : Priority) : priority.toNat < NUM := by
  cases priority <;> decide

@[simp]
theorem mem_ALL (priority : Priority) : priority ∈ ALL := by
  cases priority <;> decide

theorem toNat_injective {left right : Priority}
    (equal : left.toNat = right.toNat) : left = right := by
  cases left <;> cases right <;> first | rfl | cases equal

/-- Change the entry of one priority in a table. -/
def update {α : Type} (table : Priority → α) (priority : Priority)
    (value : α) : Priority → α :=
  fun other => if other = priority then value else table other

@[simp]
theorem update_same {α : Type} (table : Priority → α)
    (priority : Priority) (value : α) :
    update table priority value priority = value :=
  if_pos rfl

@[simp]
theorem update_other {α : Type} (table : Priority → α)
    {priority other : Priority} (distinct : other ≠ priority) (value : α) :
    update table priority value other = table other :=
  if_neg distinct

theorem update_apply {α : Type} (table : Priority → α)
    (priority other : Priority) (value : α) :
    update table priority value other =
      if other = priority then value else table other :=
  rfl

/-- The sum over all priorities. -/
def total (weight : Priority → Nat) : Nat :=
  weight .high + weight .medium + weight .low + weight .background

theorem total_update {α : Type} (table : Priority → α) (p : Priority)
    (value : α) (weight : Priority → α → Nat) :
    total (fun q => weight q (Priority.update table p value q)) +
        weight p (table p) =
      total (fun q => weight q (table q)) + weight p value := by
  cases p <;> simp [total] <;> omega

@[simp]
theorem update_self {α : Type} (table : Priority → α)
    (priority : Priority) :
    update table priority (table priority) = table := by
  funext other
  rw [update_apply]
  split
  · rename_i same
    rw [same]
  · rfl

/-- A statement about every priority is one about the four levels. -/
theorem forall_iff {motive : Priority → Prop} :
    (∀ priority, motive priority) ↔
      motive .high ∧ motive .medium ∧ motive .low ∧ motive .background := by
  constructor
  · intro all
    exact ⟨all _, all _, all _, all _⟩
  · rintro ⟨high, medium, low, background⟩ priority
    cases priority <;> assumption

instance {motive : Priority → Prop} [DecidablePred motive] :
    Decidable (∀ priority, motive priority) :=
  decidable_of_iff _ forall_iff.symm

/-- The first level of `ALL` that passes a test. -/
theorem find?_ALL_eq_some {test : Priority → Bool} {p : Priority} :
    ALL.find? test = some p ↔
      test p = true ∧ ∀ q, q.toNat < p.toNat → test q = false := by
  rw [forall_iff]
  cases high : test .high <;> cases medium : test .medium <;>
    cases low : test .low <;> cases background : test .background <;>
    cases p <;>
    simp [ALL, toNat, high, medium, low, background]

end Priority

/-! ## Congestion control -/

/-- Congestion control strategy of a message. -/
inductive CongestionControl where
  /-- Wait for queue space. -/
  | block
  /-- Allow dropping under congestion. -/
  | drop
deriving DecidableEq, Repr

/-! ## Quality of service -/

/--
The quality-of-service byte: the priority in the two low bits, then the
droppable and the express flag.
-/
structure QoS where
  bits : UInt8
deriving DecidableEq, Repr

namespace QoS

def DROPPABLE : UInt8 := (1 : UInt8) <<< 2

def EXPRESS : UInt8 := (1 : UInt8) <<< 3

/-- Priority medium, not express, block on congestion. -/
def DEFAULT : QoS := ⟨1⟩

/-- The priority level. -/
def priority (qos : QoS) : Priority :=
  .fromU8 (qos.bits &&& Priority.MASK)

/-- Whether express delivery is enabled. -/
def express (qos : QoS) : Bool :=
  qos.bits &&& EXPRESS != 0

/-- The congestion control strategy. -/
def congestionControl (qos : QoS) : CongestionControl :=
  if qos.bits &&& DROPPABLE = DROPPABLE then .drop else .block

end QoS

/-! ## Sequence numbers -/

/-- A sequence number of 28 bits. -/
structure SeqNum where
  raw : Nat
  raw_lt : raw < 2 ^ 28
deriving DecidableEq, Repr

namespace SeqNum

/-- Mask of the 28 bits. -/
def MASK : Nat := 2 ^ 28 - 1

theorem and_MASK (value : Nat) : value &&& MASK = value % 2 ^ 28 :=
  Nat.and_two_pow_sub_one_eq_mod value 28

/-- A sequence number from a `u32`, masked into range. -/
def new (value : Nat) : SeqNum :=
  ⟨value &&& MASK, by
    rw [and_MASK]
    exact Nat.mod_lt _ (by decide)⟩

/-- The raw `u32` value. -/
def get (seqNum : SeqNum) : Nat :=
  seqNum.raw

/-- The next sequence number, wrapping to zero after the maximum. -/
def next (seqNum : SeqNum) : SeqNum :=
  new ((seqNum.raw + 1) % 2 ^ 32)

@[ext]
theorem ext {left right : SeqNum} (equal : left.raw = right.raw) :
    left = right := by
  cases left
  cases right
  cases equal
  rfl

@[simp]
theorem new_raw (value : Nat) : (new value).raw = value % 2 ^ 28 :=
  and_MASK value

@[simp]
theorem new_get (seqNum : SeqNum) : new seqNum.get = seqNum := by
  apply ext
  rw [new_raw, get]
  exact Nat.mod_eq_of_lt seqNum.raw_lt

theorem next_raw (seqNum : SeqNum) :
    seqNum.next.raw = (seqNum.raw + 1) % 2 ^ 28 := by
  have bound := seqNum.raw_lt
  rw [next, new_raw]
  omega

/-- Counting up from zero reaches the counter modulo `2 ^ 28`. -/
theorem next_new (value : Nat) : (new value).next = new (value + 1) := by
  apply ext
  rw [next_raw, new_raw, new_raw]
  omega

theorem new_injective {left right : Nat} (leftLt : left < 2 ^ 28)
    (rightLt : right < 2 ^ 28) (same : new left = new right) :
    left = right := by
  have raw := congrArg raw same
  rwa [new_raw, new_raw, Nat.mod_eq_of_lt leftLt,
    Nat.mod_eq_of_lt rightLt] at raw

end SeqNum

/-! ## Headers -/

/-- Message identifiers in the low bits of a body header. -/
def id.MASK : UInt8 := 0b11111

def id.FRAME : UInt8 := 0b0

def id.FRAGMENT : UInt8 := 0b1

/-- The position of a fragment in its message. -/
inductive FragmentKind where
  | first
  | more
  | last
deriving DecidableEq, Repr

namespace FragmentKind

def SHIFT : UInt8 := 5

def MASK : UInt8 := 0b11 <<< SHIFT

/-- The declared discriminants. -/
def toU8 : FragmentKind → UInt8
  | .first => 0b00 <<< SHIFT
  | .more => 0b01 <<< SHIFT
  | .last => 0b10 <<< SHIFT

/-- Reinterpret a byte as a kind: only the declared discriminants are valid. -/
def transmute (byte : UInt8) : Except Fault FragmentKind :=
  if byte = toU8 .first then
    .ok .first
  else if byte = toU8 .more then
    .ok .more
  else if byte = toU8 .last then
    .ok .last
  else
    .error .discriminant

end FragmentKind

/-- Header of a complete message frame. -/
structure FrameHeader where
  header : UInt8
deriving DecidableEq, Repr

def FrameHeader.new : FrameHeader :=
  ⟨id.FRAME⟩

/-- Header of one fragment of a message. -/
structure FragmentHeader where
  header : UInt8
  fragId : SeqNum
deriving DecidableEq, Repr

namespace FragmentHeader

def new (kind : FragmentKind) (fragId : SeqNum) : FragmentHeader :=
  ⟨id.FRAGMENT ||| kind.toU8, fragId⟩

/-- The kind bits, reinterpreted without a check. -/
def kind (fragment : FragmentHeader) : Except Fault FragmentKind :=
  FragmentKind.transmute (fragment.header &&& FragmentKind.MASK)

/-- The kind bits hold one of the three declared discriminants. -/
def KindDeclared (header : UInt8) : Prop :=
  header &&& FragmentKind.MASK ≠ FragmentKind.MASK

instance (header : UInt8) : Decidable (KindDeclared header) := by
  unfold KindDeclared
  infer_instance

@[simp]
theorem kind_new (kind : FragmentKind) (fragId : SeqNum) :
    (new kind fragId).kind = .ok kind := by
  change FragmentKind.transmute
    ((id.FRAGMENT ||| kind.toU8) &&& FragmentKind.MASK) = .ok kind
  have masked :
      (id.FRAGMENT ||| kind.toU8) &&& FragmentKind.MASK = kind.toU8 := by
    cases kind <;> decide
  rw [masked]
  cases kind with
  | first => exact if_pos rfl
  | more => exact (if_neg (by decide)).trans (if_pos rfl)
  | last =>
      exact (if_neg (by decide)).trans
        ((if_neg (by decide)).trans (if_pos rfl))

/-- The reinterpretation is defined exactly on declared kind bits. -/
theorem kind_ok_iff (fragment : FragmentHeader) :
    (∃ kind, fragment.kind = .ok kind) ↔
      KindDeclared fragment.header := by
  obtain ⟨⟨header⟩, fragId⟩ := fragment
  have bits : ∀ header : BitVec 8,
      (FragmentKind.transmute (⟨header⟩ &&& FragmentKind.MASK)).isOk =
        decide (KindDeclared ⟨header⟩) := by
    decide
  have isOk := bits header
  unfold kind
  cases run : FragmentKind.transmute (⟨header⟩ &&& FragmentKind.MASK) with
  | ok kind => simpa [run, Except.isOk, Except.toBool] using isOk
  | error fault => simpa [run, Except.isOk, Except.toBool] using isOk

end FragmentHeader

/-- Header common to every message: the quality of service and a number. -/
structure MessageHeader where
  header : UInt8
  seqNum : SeqNum
deriving DecidableEq, Repr

namespace MessageHeader

def new (qos : QoS) (seqNum : SeqNum) : MessageHeader :=
  ⟨qos.bits, seqNum⟩

/-- The quality of service in the header byte. -/
def qos (message : MessageHeader) : QoS :=
  ⟨message.header⟩

@[simp]
theorem qos_new (qos : QoS) (seqNum : SeqNum) :
    (new qos seqNum).qos = qos :=
  rfl

end MessageHeader

/-- A message body: a complete frame or one fragment. -/
inductive MessageBody where
  | frame (frame : FrameHeader)
  | fragment (fragment : FragmentHeader)
deriving DecidableEq, Repr

structure Message where
  header : MessageHeader
  body : MessageBody
deriving DecidableEq, Repr

end Thubo
