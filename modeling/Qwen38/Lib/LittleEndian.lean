import Mathlib.Data.List.Basic
import Mathlib.Tactic.Ring

/-!
# Numbers as bytes

A number as a fixed count of bytes with the lowest first, and a list of numbers of one width
one after the other. What is written is read back modulo the width
(`LittleEndian.value_bytes`), and a list of numbers below the width exactly
(`LittleEndian.values_flatMap`).
-/

namespace LittleEndian

/-- The lowest `width` bytes of a number, lowest first. -/
def bytes : Nat → Nat → List UInt8
  | 0, _ => []
  | width + 1, n => (n % 256).toUInt8 :: bytes width (n / 256)

/-- The number whose bytes these are. -/
def value : List UInt8 → Nat
  | [] => 0
  | b :: rest => b.toNat + 256 * value rest

/-- The numbers of one width in a list of bytes, `count` of them. -/
def values (width : Nat) : Nat → List UInt8 → List Nat
  | 0, _ => []
  | count + 1, rest => value (rest.take width) :: values width count (rest.drop width)

@[simp] theorem length_bytes (width n : Nat) : (bytes width n).length = width := by
  induction width generalizing n with
  | zero => rfl
  | succ width ih => rw [bytes, List.length_cons, ih]

/-- **A number is read back** modulo what its width can hold. -/
theorem value_bytes (width n : Nat) : value (bytes width n) = n % 256 ^ width := by
  induction width generalizing n with
  | zero => rw [bytes, value, Nat.pow_zero, Nat.mod_one]
  | succ width ih =>
    have hbyte : (n % 256).toUInt8.toNat = n % 256 := by
      rw [UInt8.toNat_ofNat']
      exact Nat.mod_eq_of_lt (Nat.mod_lt n (by decide))
    rw [bytes, value, ih, hbyte, Nat.pow_succ, Nat.mul_comm (256 ^ width), Nat.mod_mul]

theorem value_bytes_of_lt {width n : Nat} (h : n < 256 ^ width) : value (bytes width n) = n := by
  rw [value_bytes, Nat.mod_eq_of_lt h]

/-- One more byte, the highest. -/
theorem value_concat (l : List UInt8) (b : UInt8) :
    value (l ++ [b]) = value l + 256 ^ l.length * b.toNat := by
  induction l with
  | nil => simp [value]
  | cons c l ih =>
    rw [List.cons_append, value, ih, value, List.length_cons]
    ring

theorem value_lt (l : List UInt8) : value l < 256 ^ l.length := by
  induction l with
  | nil => exact Nat.one_pos
  | cons b l ih =>
    have hbyte := b.toNat_lt
    rw [value, List.length_cons, Nat.pow_succ]
    omega

/-- **A list of numbers is read back**, with anything behind it. -/
theorem values_flatMap {width : Nat} {l : List Nat} (h : ∀ n ∈ l, n < 256 ^ width)
    (rest : List UInt8) : values width l.length (l.flatMap (bytes width) ++ rest) = l := by
  induction l with
  | nil => rfl
  | cons n l ih =>
    rw [List.flatMap_cons, List.length_cons, values, List.append_assoc,
      List.take_left' (length_bytes width n), List.drop_left' (length_bytes width n),
      value_bytes_of_lt (h n List.mem_cons_self), ih fun m hm => h m (List.mem_cons_of_mem n hm)]

theorem length_flatMap (width : Nat) (l : List Nat) :
    (l.flatMap (bytes width)).length = l.length * width := by
  induction l with
  | nil => exact (Nat.zero_mul width).symm
  | cons n l ih => rw [List.flatMap_cons, List.length_append, length_bytes, ih, List.length_cons,
      Nat.succ_mul, Nat.add_comm]

@[simp] theorem length_values (width count : Nat) (l : List UInt8) :
    (values width count l).length = count := by
  induction count generalizing l with
  | zero => rfl
  | succ count ih => rw [values, List.length_cons, ih]

/-- **One of the numbers**, in the bytes from its place on. -/
theorem getElem?_values {width count : Nat} (l : List UInt8) {k : Nat} (hk : k < count) :
    (values width count l)[k]? = some (value ((l.drop (k * width)).take width)) := by
  induction count generalizing l k with
  | zero => omega
  | succ count ih =>
    cases k with
    | zero => rw [values, List.getElem?_cons_zero, Nat.zero_mul, List.drop_zero]
    | succ k =>
      rw [values, List.getElem?_cons_succ, ih _ (Nat.lt_of_succ_lt_succ hk), List.drop_drop,
        Nat.succ_mul, Nat.add_comm width]

theorem values_lt {width count n : Nat} {l : List UInt8} (h : n ∈ values width count l) :
    n < 256 ^ width := by
  obtain ⟨k, hk⟩ := List.getElem?_of_mem h
  have hlt : k < count := by
    have hplace := (List.getElem?_eq_some_iff.mp hk).1
    rwa [length_values] at hplace
  rw [getElem?_values l hlt, Option.some.injEq] at hk
  subst hk
  refine (value_lt _).trans_le (Nat.pow_le_pow_right (by decide) ?_)
  rw [List.length_take]
  exact Nat.min_le_left _ _

end LittleEndian
