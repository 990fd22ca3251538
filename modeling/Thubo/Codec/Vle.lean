import Thubo.Buffers.Bytes
import Thubo.Buffers.BoxBuf

/-!
# Variable-length integers

A `u64` is written in groups of seven bits, low group first, with the high
bit of a byte set while more groups follow.  The ninth byte carries eight
bits, so nine bytes hold every value.
-/

namespace Thubo

/-- `u64::MAX`. -/
def u64Max : Nat :=
  2 ^ 64 - 1

/-- `u64::MAX << (7 * groups)`. -/
def vleMask (groups : Nat) : Nat :=
  (u64Max <<< (7 * groups)) % 2 ^ 64

/-- The number of bytes of a written `u64`. -/
def vleLen (x : Nat) : Nat :=
  if x &&& vleMask 1 = 0 then 1
  else if x &&& vleMask 2 = 0 then 2
  else if x &&& vleMask 3 = 0 then 3
  else if x &&& vleMask 4 = 0 then 4
  else if x &&& vleMask 5 = 0 then 5
  else if x &&& vleMask 6 = 0 then 6
  else if x &&& vleMask 7 = 0 then 7
  else if x &&& vleMask 8 = 0 then 8
  else 9

def VLE_LEN_MAX : Nat :=
  vleLen u64Max

/-! ## Writing -/

/--
The bytes the write loop stores.  `rounds` is `VLE_LEN_MAX - len`: when it
reaches zero all bits of a `u64` have been written.
-/
def vleLoop : Nat → Nat → List UInt8
  | 0, _ => []
  | rounds + 1, x =>
      if x &&& vleMask 1 ≠ 0 then
        (UInt8.ofNat x ||| 0x80) :: vleLoop rounds (x >>> 7)
      else
        [UInt8.ofNat x]

/-- The encoding of a `u64`. -/
def vleBytes (x : Nat) : List UInt8 :=
  vleLoop VLE_LEN_MAX x

/-- Write a `u64`. -/
def writeU64 {W : Type} [Writer W] (x : Nat) : Cursor W Unit :=
  Writer.withSlot (vleLen x) (vleBytes x)

/-! ## Reading -/

/--
The read loop after a byte `b` has been read.  `rounds` counts the shifts
left until `i` reaches its largest value.
-/
def readU64Loop {R : Type} [Reader R] :
    Nat → Nat → UInt8 → Nat → Cursor R Nat
  | 0, i, b, v => return v ||| (b.toNat <<< i)
  | rounds + 1, i, b, v =>
      if b &&& 0x80 ≠ 0 then do
        let v := v ||| ((b &&& 0x7f).toNat <<< i)
        let b ← Reader.readU8
        readU64Loop rounds (i + 7) b v
      else
        return v ||| (b.toNat <<< i)

/-- Read a `u64`. -/
def readU64 {R : Type} [Reader R] : Cursor R Nat := do
  let b ← Reader.readU8
  readU64Loop (VLE_LEN_MAX - 1) 0 b 0

/-- Read a `u32`: the value is truncated. -/
def readU32 {R : Type} [Reader R] : Cursor R Nat := do
  let x ← readU64
  return x % 2 ^ 32

/-- Read a `usize`. -/
def readUsize {R : Type} [Reader R] : Cursor R Nat :=
  readU64

namespace Parser

/-- The parser of `readU64Loop`. -/
def u64Loop : Nat → Nat → UInt8 → Nat → Parser UInt8 Nat
  | 0, i, b, v => return v ||| (b.toNat <<< i)
  | rounds + 1, i, b, v =>
      if b &&& 0x80 ≠ 0 then do
        let b' ← next
        u64Loop rounds (i + 7) b' (v ||| ((b &&& 0x7f).toNat <<< i))
      else
        return v ||| (b.toNat <<< i)

/-- The parser of `readU64`. -/
def u64 : Parser UInt8 Nat := do
  let b ← next
  u64Loop (VLE_LEN_MAX - 1) 0 b 0

/-- The parser of `readU32`. -/
def u32 : Parser UInt8 Nat := do
  let x ← u64
  return x % 2 ^ 32

end Parser

/-- The loop never reads backwards. -/
theorem Parser.length_u64Loop {rounds i v : Nat} {b : UInt8}
    {input rest : List UInt8} {x : Nat}
    (parsed : Parser.u64Loop rounds i b v input = some (x, rest)) :
    rest.length ≤ input.length := by
  induction rounds generalizing i b v input with
  | zero =>
      cases parsed
      exact Nat.le_refl _
  | succ rounds hypothesis =>
      rw [Parser.u64Loop] at parsed
      split at parsed
      · cases input with
        | nil => cases parsed
        | cons head tail =>
            rw [Parser.bind_some (Parser.next_cons head tail)] at parsed
            exact Nat.le_succ_of_le (hypothesis parsed)
      · cases parsed
        exact Nat.le_refl _

/-- An integer takes at least one byte. -/
theorem Parser.length_u64 {input rest : List UInt8} {x : Nat}
    (parsed : Parser.u64 input = some (x, rest)) :
    rest.length < input.length := by
  cases input with
  | nil => cases parsed
  | cons head tail =>
      rw [Parser.u64, Parser.bind_some (Parser.next_cons head tail)]
        at parsed
      exact Nat.lt_succ_of_le (Parser.length_u64Loop parsed)

section Refinement

variable {R : Type} [Reader R] {presentation : Presentation R UInt8}
variable (readsU8 : presentation.Refines Eq Reader.readU8 Parser.next)
include readsU8

theorem readU64Loop_refines (rounds i : Nat) (b : UInt8) (v : Nat) :
    presentation.Refines Eq (readU64Loop rounds i b v)
      (Parser.u64Loop rounds i b v) := by
  induction rounds generalizing i b v with
  | zero => exact Presentation.Refines.of_pure rfl
  | succ rounds hypothesis =>
      unfold readU64Loop Parser.u64Loop
      split
      · apply readsU8.bind
        rintro b' _ rfl
        exact hypothesis _ _ _
      · exact Presentation.Refines.of_pure rfl

theorem readU64_refines :
    presentation.Refines Eq readU64 Parser.u64 := by
  apply readsU8.bind
  rintro b _ rfl
  exact readU64Loop_refines readsU8 _ _ _ _

theorem readU32_refines :
    presentation.Refines Eq readU32 Parser.u32 := by
  apply (readU64_refines readsU8).bind
  rintro x _ rfl
  exact Presentation.Refines.of_pure rfl

end Refinement

/-! ## Lengths -/

theorem vleMask_eq {groups : Nat} (bounded : groups < 10) :
    vleMask groups = (2 ^ (64 - 7 * groups) - 1) <<< (7 * groups) := by
  have all : ∀ groups < 10,
      vleMask groups = (2 ^ (64 - 7 * groups) - 1) <<< (7 * groups) := by
    decide
  exact all groups bounded

/-- Masking keeps nothing exactly below the mask's lowest bit. -/
theorem and_vleMask_eq_zero {x groups : Nat} (bounded : x < 2 ^ 64)
    (few : groups < 10) :
    x &&& vleMask groups = 0 ↔ x < 2 ^ (7 * groups) := by
  rw [vleMask_eq few]
  constructor
  · intro zero
    have shifted : (x &&& (2 ^ (64 - 7 * groups) - 1) <<< (7 * groups)) >>>
        (7 * groups) = 0 := by
      rw [zero, Nat.zero_shiftRight]
    rw [Nat.shiftRight_and_distrib, Nat.shiftLeft_shiftRight,
      Nat.and_two_pow_sub_one_eq_mod, Nat.shiftRight_eq_div_pow] at shifted
    have pow : (2 : Nat) ^ 64 =
        2 ^ (7 * groups) * 2 ^ (64 - 7 * groups) := by
      rw [← Nat.pow_add]
      congr 1
      omega
    rw [Nat.mod_eq_of_lt] at shifted
    · exact (Nat.div_eq_zero_iff_lt (Nat.two_pow_pos _)).1 shifted
    · rw [pow] at bounded
      exact Nat.div_lt_of_lt_mul bounded
  · intro small
    apply Nat.eq_of_testBit_eq
    intro i
    rw [Nat.testBit_and, Nat.zero_testBit, Nat.testBit_shiftLeft]
    by_cases low : 7 * groups ≤ i
    · rw [Nat.testBit_lt_two_pow
        (Nat.lt_of_lt_of_le small (Nat.pow_le_pow_right (by decide) low)),
        Bool.false_and]
    · simp [low]

theorem VLE_LEN_MAX_eq : VLE_LEN_MAX = 9 := by
  decide

/-- The loop stops at the first group below the continuation bound. -/
theorem vleLoop_succ (rounds x : Nat) (bounded : x < 2 ^ 64) :
    vleLoop (rounds + 1) x =
      if x < 128 then
        [UInt8.ofNat x]
      else
        (UInt8.ofNat x ||| 0x80) :: vleLoop rounds (x / 128) := by
  have small : x &&& vleMask 1 = 0 ↔ x < 128 :=
    and_vleMask_eq_zero bounded (by decide)
  rw [vleLoop, Nat.shiftRight_eq_div_pow]
  by_cases stops : x < 128
  · rw [if_pos stops, if_neg (by simp [small, stops])]
  · rw [if_neg stops, if_pos (by simp [small, stops])]

/-- The length is found by the same bounds as the groups. -/
theorem vleLen_eq {x : Nat} (bounded : x < 2 ^ 64) :
    vleLen x =
      if x < 2 ^ 7 then 1 else if x < 2 ^ 14 then 2
      else if x < 2 ^ 21 then 3 else if x < 2 ^ 28 then 4
      else if x < 2 ^ 35 then 5 else if x < 2 ^ 42 then 6
      else if x < 2 ^ 49 then 7 else if x < 2 ^ 56 then 8 else 9 := by
  have small : ∀ groups, groups < 10 →
      (x &&& vleMask groups = 0 ↔ x < 2 ^ (7 * groups)) :=
    fun groups few => and_vleMask_eq_zero bounded few
  simp only [vleLen, small 1 (by decide), small 2 (by decide),
    small 3 (by decide), small 4 (by decide), small 5 (by decide),
    small 6 (by decide), small 7 (by decide), small 8 (by decide),
    Nat.mul_one, Nat.reduceMul]

theorem vleLen_pos {x : Nat} (bounded : x < 2 ^ 64) : 0 < vleLen x := by
  rw [vleLen_eq bounded]
  grind

theorem vleLen_le {x : Nat} (bounded : x < 2 ^ 64) : vleLen x ≤ 9 := by
  rw [vleLen_eq bounded]
  grind

/-- A value of `groups + 1` groups takes that many rounds. -/
theorem length_vleLoop_of_lt {groups rounds x : Nat}
    (bounded : x < 2 ^ 64) (room : groups < rounds)
    (lower : groups = 0 ∨ 2 ^ (7 * groups) ≤ x)
    (upper : x < 2 ^ (7 * (groups + 1))) :
    (vleLoop rounds x).length = groups + 1 := by
  induction groups generalizing rounds x with
  | zero =>
      obtain ⟨rounds, rfl⟩ : ∃ more, rounds = more + 1 :=
        ⟨rounds - 1, by omega⟩
      rw [vleLoop_succ _ _ bounded, if_pos (by simpa using upper)]
      rfl
  | succ groups hypothesis =>
      obtain ⟨rounds, rfl⟩ : ∃ more, rounds = more + 1 :=
        ⟨rounds - 1, by omega⟩
      have least : 2 ^ (7 * (groups + 1)) ≤ x := by
        rcases lower with none | least
        · omega
        · exact least
      have split : (2 : Nat) ^ (7 * (groups + 1)) =
          128 * 2 ^ (7 * groups) := by
        rw [Nat.mul_add, Nat.pow_add, Nat.mul_comm]
      have split' : (2 : Nat) ^ (7 * (groups + 1 + 1)) =
          128 * 2 ^ (7 * (groups + 1)) := by
        rw [Nat.mul_add, Nat.pow_add, Nat.mul_comm]
      have positive := Nat.two_pow_pos (7 * groups)
      rw [vleLoop_succ _ _ bounded, if_neg (by omega), List.length_cons,
        hypothesis (by omega) (by omega) (Or.inr (by omega)) (by omega)]

/-- A value of at least `rounds` groups uses every round. -/
theorem length_vleLoop_of_le {rounds x : Nat} (bounded : x < 2 ^ 64)
    (lower : 2 ^ (7 * rounds) ≤ x) :
    (vleLoop rounds x).length = rounds := by
  induction rounds generalizing x with
  | zero => rfl
  | succ rounds hypothesis =>
      have split : (2 : Nat) ^ (7 * (rounds + 1)) =
          128 * 2 ^ (7 * rounds) := by
        rw [Nat.mul_add, Nat.pow_add, Nat.mul_comm]
      have positive := Nat.two_pow_pos (7 * rounds)
      rw [vleLoop_succ _ _ bounded, if_neg (by omega), List.length_cons,
        hypothesis (by omega) (by omega)]

/-- The loop fills exactly the slot it is given. -/
theorem length_vleBytes {x : Nat} (bounded : x < 2 ^ 64) :
    (vleBytes x).length = vleLen x := by
  have exact_ : ∀ groups, groups < 9 →
      (groups = 0 ∨ 2 ^ (7 * groups) ≤ x) → x < 2 ^ (7 * (groups + 1)) →
        (vleLoop 9 x).length = groups + 1 :=
    fun groups room lower upper =>
      length_vleLoop_of_lt bounded room lower upper
  rw [vleBytes, VLE_LEN_MAX_eq, vleLen_eq bounded]
  repeat' split
  · exact exact_ 0 (by omega) (Or.inl rfl) (by omega)
  · exact exact_ 1 (by omega) (Or.inr (by omega)) (by omega)
  · exact exact_ 2 (by omega) (Or.inr (by omega)) (by omega)
  · exact exact_ 3 (by omega) (Or.inr (by omega)) (by omega)
  · exact exact_ 4 (by omega) (Or.inr (by omega)) (by omega)
  · exact exact_ 5 (by omega) (Or.inr (by omega)) (by omega)
  · exact exact_ 6 (by omega) (Or.inr (by omega)) (by omega)
  · exact exact_ 7 (by omega) (Or.inr (by omega)) (by omega)
  · by_cases top : x < 2 ^ 63
    · exact exact_ 8 (by omega) (Or.inr (by omega)) (by omega)
    · exact length_vleLoop_of_le bounded (by omega)

theorem vleBytes_ne_nil {x : Nat} (bounded : x < 2 ^ 64) :
    vleBytes x ≠ [] := by
  intro empty
  have length := length_vleBytes bounded
  have positive := vleLen_pos bounded
  rw [empty, List.length_nil] at length
  omega

/-- Writing a `u64` writes its encoding. -/
theorem writeU64_writes {x : Nat} (bounded : x < 2 ^ 64) :
    Writes (writeU64 x) (vleBytes x) := by
  unfold writeU64
  rw [← length_vleBytes bounded]
  exact Writes.withSlot (vleBytes_ne_nil bounded)

/-! ## Round trip -/

/-- The continuation byte of a group keeps the group's bits. -/
theorem continuation (x : Nat) :
    (UInt8.ofNat x ||| 0x80) &&& 0x80 ≠ 0 ∧
      ((UInt8.ofNat x ||| 0x80) &&& 0x7f).toNat = x % 128 := by
  have bits : ∀ byte : BitVec 8,
      ((⟨byte⟩ ||| 0x80 : UInt8) &&& 0x80 ≠ 0) ∧
        ((⟨byte⟩ ||| 0x80 : UInt8) &&& 0x7f).toNat = byte.toNat % 128 := by
    decide
  have known := bits (UInt8.ofNat x).toBitVec
  refine ⟨known.1, known.2.trans ?_⟩
  change (UInt8.ofNat x).toNat % 128 = x % 128
  rw [UInt8.toNat_ofNat']
  omega

/-- A final group below the bound has no continuation bit. -/
theorem no_continuation {x : Nat} (small : x < 128) :
    (UInt8.ofNat x) &&& 0x80 = 0 := by
  have bits : ∀ byte : BitVec 8, byte.toNat < 128 →
      (⟨byte⟩ : UInt8) &&& 0x80 = 0 := by
    decide
  apply bits (UInt8.ofNat x).toBitVec
  change (UInt8.ofNat x).toNat < 128
  rw [UInt8.toNat_ofNat']
  omega

/-- Appending a group above `i` low bits. -/
theorem or_shiftLeft {v i : Nat} (low : v < 2 ^ i) (x : Nat) :
    v ||| (x <<< i) = v + x * 2 ^ i := by
  rw [Nat.or_comm, ← Nat.shiftLeft_add_eq_or_of_lt low, Nat.shiftLeft_eq,
    Nat.add_comm]

/-- Reading back the groups of `x` adds it above the bits already read. -/
theorem u64Loop_vleLoop (rounds i x v : Nat) (rest : List UInt8)
    (bounded : x < 2 ^ 64) (upper : x < 2 ^ (7 * rounds + 8))
    (low : v < 2 ^ i) :
    ∃ b tail, vleLoop (rounds + 1) x = b :: tail ∧
      Parser.u64Loop rounds i b v (tail ++ rest) =
        some (v + x * 2 ^ i, rest) := by
  induction rounds generalizing i x v with
  | zero =>
      have byte : (UInt8.ofNat x).toNat = x := by
        rw [UInt8.toNat_ofNat']
        omega
      rw [vleLoop_succ _ _ bounded]
      split
      · refine ⟨_, _, rfl, ?_⟩
        rw [Parser.u64Loop, byte, or_shiftLeft low]
        rfl
      · rename_i large
        refine ⟨_, _, rfl, ?_⟩
        have bits : ∀ byte : BitVec 8, 128 ≤ byte.toNat →
            ((⟨byte⟩ : UInt8) ||| 0x80) = ⟨byte⟩ := by
          decide
        have top : UInt8.ofNat x ||| 0x80 = UInt8.ofNat x := by
          apply bits (UInt8.ofNat x).toBitVec
          change 128 ≤ (UInt8.ofNat x).toNat
          omega
        rw [top, Parser.u64Loop, byte, or_shiftLeft low]
        rfl
  | succ rounds hypothesis =>
      rw [vleLoop_succ _ _ bounded]
      split
      · rename_i small
        refine ⟨_, _, rfl, ?_⟩
        have byte : (UInt8.ofNat x).toNat = x := by
          rw [UInt8.toNat_ofNat']
          omega
        rw [Parser.u64Loop, if_neg (by simp [no_continuation small]), byte,
          or_shiftLeft low]
        rfl
      · rename_i large
        have split : (2 : Nat) ^ (7 * (rounds + 1) + 8) =
            128 * 2 ^ (7 * rounds + 8) := by
          rw [show 7 * (rounds + 1) + 8 = 7 + (7 * rounds + 8) by omega,
            Nat.pow_add]
        have shift : (2 : Nat) ^ (i + 7) = 2 ^ i * 128 := Nat.pow_add ..
        obtain ⟨bit, group⟩ := continuation x
        have low' : v + x % 128 * 2 ^ i < 2 ^ (i + 7) := by
          have below : x % 128 < 128 := Nat.mod_lt _ (by decide)
          have scaled : (x % 128 + 1) * 2 ^ i ≤ 128 * 2 ^ i :=
            Nat.mul_le_mul_right _ below
          rw [Nat.add_mul, Nat.one_mul] at scaled
          rw [shift, Nat.mul_comm (2 ^ i)]
          omega
        obtain ⟨b, tail, written, read⟩ :=
          hypothesis (i + 7) (x / 128) (v + x % 128 * 2 ^ i) (by omega)
            (by omega) low'
        refine ⟨_, _, rfl, ?_⟩
        have value : v + x % 128 * 2 ^ i + x / 128 * (2 ^ i * 128) =
            v + x * 2 ^ i :=
          calc v + x % 128 * 2 ^ i + x / 128 * (2 ^ i * 128)
              = v + (128 * (x / 128) + x % 128) * 2 ^ i := by
                rw [Nat.add_mul, Nat.mul_comm (2 ^ i) 128, ← Nat.mul_assoc,
                  Nat.mul_comm (x / 128) 128]
                omega
            _ = v + x * 2 ^ i := by rw [Nat.div_add_mod x 128]
        rw [Parser.u64Loop, if_pos bit, group, or_shiftLeft low, written,
          List.cons_append, Parser.bind_some (Parser.next_cons _ _), read,
          shift, value]

/-- Every `u64` is read back from its encoding, which is consumed. -/
theorem u64_vleBytes {x : Nat} (bounded : x < 2 ^ 64) (rest : List UInt8) :
    Parser.u64 (vleBytes x ++ rest) = some (x, rest) := by
  obtain ⟨b, tail, written, read⟩ :=
    u64Loop_vleLoop 8 0 x 0 rest bounded bounded (by decide)
  rw [vleBytes, VLE_LEN_MAX_eq, written, List.cons_append, Parser.u64,
    Parser.bind_some (Parser.next_cons _ _), VLE_LEN_MAX_eq, read]
  simp

/-- Every `u32` is read back from its encoding. -/
theorem u32_vleBytes {x : Nat} (bounded : x < 2 ^ 32) (rest : List UInt8) :
    Parser.u32 (vleBytes x ++ rest) = some (x, rest) := by
  rw [Parser.u32, Parser.bind_some (u64_vleBytes (by omega) rest),
    Nat.mod_eq_of_lt bounded]
  rfl

end Thubo
