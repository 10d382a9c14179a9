import Qwen38.Lib.BitPacking
import Qwen38.Lib.Except
import Qwen38.Lib.LittleEndian
import Mathlib.Data.UInt

/-!
# The codes of vector-quantized experts

A row of packed experts is a list of codes of a few bits each, in blocks of 32; a block fills as
many words as a code has bits. The host reads a code with `unpack_vq_code`; the kernels read them
one by one (`vq14_code`, `gemmseg_code`), or the eight of a group from four words that they load
once (`vq_d8_group_dot_cached`).

All of them return the code that was packed and read nothing but the words of its row. The check
of the host is one off at the last index there is: its count wraps to 0
(`unpack_vq_code_throws_iff`).
-/

namespace Qwen38

open Except (throw_if throw_if_of_not throw_if_of)
open BitPacking

/-- What reading a code may end in: an exception, or a read outside of the words. -/
inductive VqFault where
  | runtime_error (message : String)
  | out_of_range (message : String)
  | outside (index : Nat)
  deriving DecidableEq

/-- An element of a span. -/
def read {α : Type} (words : List α) (index : Nat) : Except VqFault α :=
  match words[index]? with
  | some word => .ok word
  | none => .error (.outside index)

/-! ### The host -/

/-- `packed_vq_word_count`. -/
def packed_vq_word_count (code_count bits_per_code : UInt64) : Except VqFault UInt64 := do
  throw_if (bits_per_code = 0 ∨ 31 < bits_per_code)
    (.runtime_error "packed VQ codes must use 1 to 31 bits")
  let blocks := code_count / 32 + if code_count % 32 ≠ 0 then 1 else 0
  throw_if (18446744073709551615 / bits_per_code < blocks)
    (.runtime_error "packed VQ word count overflows")
  return blocks * bits_per_code

/-- The code at an index, from where it lies in its block. -/
def code_at (words : List UInt32) (code_index bits_per_code : UInt64) : Except VqFault UInt32 := do
  let in_block := code_index % 32
  let bit_offset := in_block * bits_per_code
  let word := code_index / 32 * bits_per_code + bit_offset / 32
  let shift := bit_offset % 32
  let low ← read words word.toNat
  let value := low.toUInt64 >>> shift
  let value ←
    if 32 < shift + bits_per_code then do
      let high ← read words (word + 1).toNat
      pure (value ||| high.toUInt64 <<< (32 - shift))
    else pure value
  return (value &&& (1 <<< bits_per_code - 1)).toUInt32

/-- `unpack_vq_code`. -/
def unpack_vq_code (words : List UInt32) (code_index bits_per_code : UInt64) :
    Except VqFault UInt32 := do
  let required ← packed_vq_word_count (code_index + 1) bits_per_code
  throw_if (words.length < required.toNat) (.out_of_range "packed VQ code is out of range")
  code_at words code_index bits_per_code

/-! ### The kernels -/

/-- `load_u32_unaligned`. -/
def load_u32_unaligned (bytes : List UInt8) (index : UInt64) : Except VqFault UInt32 := do
  let offset := index * 4
  let b0 ← read bytes offset.toNat
  let b1 ← read bytes (offset + 1).toNat
  let b2 ← read bytes (offset + 2).toNat
  let b3 ← read bytes (offset + 3).toNat
  return b0.toUInt32 ||| b1.toUInt32 <<< 8 ||| b2.toUInt32 <<< 16 ||| b3.toUInt32 <<< 24

/-- The bits from `shift` on of a word and, if they do not end there, the next one. -/
def extract (bits shift : UInt32) (word next : Except VqFault UInt32) : Except VqFault UInt32 := do
  let low ← word
  let packed := (low >>> shift).toUInt64
  let packed ←
    if 32 < shift + bits then do
      let high ← next
      pure (packed ||| high.toUInt64 <<< (32 - shift).toUInt64)
    else pure packed
  return (packed &&& (1 <<< bits - 1).toUInt64).toUInt32

/-- A code of a row, from where it lies in its block. -/
def packed_code (load : UInt32 → Except VqFault UInt32) (bits subvector : UInt32) :
    Except VqFault UInt32 :=
  let within := subvector &&& 31
  let bit_offset := within * bits
  let word := (subvector >>> 5) * bits + bit_offset >>> 5
  let shift := bit_offset &&& 31
  extract bits shift (load word) (load (word + 1))

/-- `vq14_code`. -/
def vq14_code (row : List UInt8) (subvector : UInt32) : Except VqFault UInt32 :=
  packed_code (fun word => load_u32_unaligned row word.toUInt64) 14 subvector

/-- The code of a subvector in `gemmseg_d8`: a byte of its own, or packed. -/
def gemmseg_code (bits : UInt32) (direct_row : List UInt8) (packed_row : List UInt32)
    (subvector : UInt32) : Except VqFault UInt32 :=
  if bits = 0 then do return (← read direct_row subvector.toNat).toUInt32
  else packed_code (fun word => read packed_row word.toNat) bits subvector

section GroupDot

variable {α : Type} (accumulate : α → UInt32 → UInt32 → α)

/-- `vq_d8_group_dot`; `accumulate` adds the product of a subvector with the entry of its code. -/
def vq_d8_group_dot (codes : List UInt8) (group : UInt32) (value : α) : Except VqFault α :=
  ([0, 1, 2, 3, 4, 5, 6, 7] : List UInt32).foldlM (fun value index => do
    let code ← vq14_code codes (group * 8 + index)
    return accumulate value index code) value

/-- The four words that cover a group. -/
def group_words (codes : List UInt8) (first_word : UInt32) : Except VqFault (List UInt32) :=
  ([0, 1, 2, 3] : List UInt32).mapM fun word => load_u32_unaligned codes (first_word + word).toUInt64

/-- A code of a group, from its words. -/
def cached_code (packed_words : List UInt32) (cached_shift index : UInt32) : Except VqFault UInt32 :=
  let bit := cached_shift + index * 14
  let word := bit >>> 5
  let shift := bit &&& 31
  extract 14 shift (read packed_words word.toNat) (read packed_words (word + 1).toNat)

/-- `vq_d8_group_dot_cached`. -/
def vq_d8_group_dot_cached (codes : List UInt8) (group : UInt32) (value : α) : Except VqFault α := do
  let first_sub := group * 8
  let block_bit := (first_sub &&& 31) * (14 : UInt32)
  let first_word := (first_sub >>> 5) * (14 : UInt32) + block_bit >>> 5
  let cached_shift := block_bit &&& 31
  let packed_words ← group_words codes first_word
  ([0, 1, 2, 3, 4, 5, 6, 7] : List UInt32).foldlM (fun value index => do
    let code ← cached_code packed_words cached_shift index
    return accumulate value index code) value

end GroupDot

/-! ### Packed rows -/

/-- A row of codes: packed into words, in blocks of 32. -/
structure PackedRow (bits : Nat) (codes words : List UInt32) : Prop where
  packed : Packed 32 bits (codes.map UInt32.toNat) (words.map UInt32.toNat)
  length : words.length = (codes.length + 31) / 32 * bits

/-- The words of a row in memory. -/
def row_bytes (words : List UInt32) : List UInt8 := words.flatMap fun word => LittleEndian.bytes 4 word.toNat

/-- Two reads that yield a code: the word it begins in, and the next one if it straddles. -/
def Yields (bits shift : Nat) (word next : Except VqFault UInt32) (code : UInt32) : Prop :=
  ∃ low, word = .ok low ∧
    (¬32 < shift + bits ∧ window 32 bits shift low.toNat 0 = code.toNat ∨
      32 < shift + bits ∧ ∃ high, next = .ok high ∧
        window 32 bits shift low.toNat high.toNat = code.toNat)

variable {codes words : List UInt32} {i : Nat}

theorem Yields.imp {bits shift : Nat} {word next word' next' : Except VqFault UInt32} {code : UInt32}
    (h : Yields bits shift word next code) (hword : ∀ w, word = .ok w → word' = .ok w)
    (hnext : 32 < shift + bits → ∀ w, next = .ok w → next' = .ok w) :
    Yields bits shift word' next' code := by
  obtain ⟨low, hlow, hinside | ⟨hstraddle, high, hhigh, hcode⟩⟩ := h
  · exact ⟨low, hword low hlow, Or.inl hinside⟩
  · exact ⟨low, hword low hlow, Or.inr ⟨hstraddle, high, hnext hstraddle high hhigh, hcode⟩⟩

theorem read_of_lt {α : Type} {words : List α} {index : Nat} (h : index < words.length) :
    read words index = .ok words[index] := by
  rw [read, List.getElem?_eq_getElem h]

theorem getElem?_of_read {α : Type} {words : List α} {index : Nat} {word : α}
    (h : read words index = .ok word) : words[index]? = some word := by
  rw [read] at h
  split at h
  · rwa [← Except.ok.inj h]
  · cases h

/-- **The words of a code** are words of its row, and hold it. -/
theorem PackedRow.yields {bits : Nat} (h : PackedRow bits codes words) (hbits : 0 < bits ∧ bits ≤ 31)
    (hi : i < codes.length) :
    Yields bits (i * bits % 32) (read words (i * bits / 32)) (read words (i * bits / 32 + 1))
      codes[i] := by
  have hi' : i < (codes.map UInt32.toNat).length := by rwa [List.length_map]
  have hword := h.packed.word_lt_length hbits.1 hi'
  have hle : bits ≤ 32 := by omega
  rw [List.length_map] at hword
  have hlow : (words.map UInt32.toNat)[i * bits / 32]? = some words[i * bits / 32].toNat := by
    rw [List.getElem?_map, List.getElem?_eq_getElem hword, Option.map_some]
  refine ⟨words[i * bits / 32], read_of_lt hword, ?_⟩
  by_cases hstraddle : 32 < i * bits % 32 + bits
  · have hnext := h.packed.next_lt_length hi' hstraddle
    rw [List.length_map] at hnext
    refine Or.inr ⟨hstraddle, words[i * bits / 32 + 1], read_of_lt hnext, ?_⟩
    rw [h.packed.window_eq hle (by decide) hi' hlow fun _ => ?_, List.getElem_map]
    rw [List.getElem?_map, List.getElem?_eq_getElem hnext, Option.map_some]
  · refine Or.inl ⟨hstraddle, ?_⟩
    rw [h.packed.window_eq hle (by decide) hi' hlow fun hs => absurd hs hstraddle, List.getElem_map]

/-! ### Shifts and masks -/

theorem mask_eq {v mask : UInt64} {bits : Nat} (hmask : mask.toNat = 2 ^ bits - 1) (hbits : bits ≤ 31) :
    (v &&& mask).toUInt32.toNat = v.toNat % 2 ^ bits := by
  have hlt : v.toNat % 2 ^ bits < 2 ^ 32 :=
    (Nat.mod_lt _ (Nat.two_pow_pos bits)).trans_le (Nat.pow_le_pow_right (by decide) (by omega))
  rw [UInt64.toNat_toUInt32, UInt64.toNat_and, hmask, Nat.and_two_pow_sub_one_eq_mod,
    Nat.mod_eq_of_lt hlt]

/-- A word shifted up by less than its width. -/
theorem shiftLeft_eq {high : UInt32} {shift : UInt64} (h : shift.toNat ≤ 32) :
    (high.toUInt64 <<< shift).toNat = high.toNat <<< shift.toNat := by
  have hlt : high.toNat <<< shift.toNat < 2 ^ 64 := by
    rw [Nat.shiftLeft_eq]
    calc high.toNat * 2 ^ shift.toNat < 2 ^ 32 * 2 ^ shift.toNat :=
          Nat.mul_lt_mul_of_pos_right high.toNat_lt (Nat.two_pow_pos _)
      _ ≤ 2 ^ 32 * 2 ^ 32 := Nat.mul_le_mul_left _ (Nat.pow_le_pow_right (by decide) h)
  rw [UInt64.toNat_shiftLeft, UInt32.toNat_toUInt64, Nat.mod_eq_of_lt (by omega : shift.toNat < 64),
    Nat.mod_eq_of_lt hlt]

theorem toNat_and_31 (x : UInt32) : (x &&& 31).toNat = x.toNat % 32 := by
  rw [UInt32.toNat_and]
  exact Nat.and_two_pow_sub_one_eq_mod _ 5

theorem toNat_shiftRight_5 (x : UInt32) : (x >>> 5).toNat = x.toNat / 32 := by
  rw [UInt32.toNat_shiftRight]
  exact Nat.shiftRight_eq_div_pow _ 5

/-- Where a code begins: a block of 32 codes fills as many words as a code has bits. -/
theorem block_place (i bits : Nat) :
    i / 32 * bits + i % 32 * bits / 32 = i * bits / 32 ∧ i % 32 * bits % 32 = i * bits % 32 := by
  have hsplit : i * bits = i % 32 * bits + 32 * (i / 32 * bits) := by
    rw [← Nat.mul_assoc, ← Nat.add_mul, Nat.mod_add_div]
  rw [hsplit, Nat.add_mul_div_left _ _ (by decide), Nat.add_mul_mod_self_left]
  exact ⟨Nat.add_comm _ _, rfl⟩

/-- **The kernels' way** to read a code. -/
theorem extract_eq {bits shift code : UInt32} {word next : Except VqFault UInt32}
    (hbits : bits.toNat ≤ 31) (hshift : shift.toNat < 32)
    (h : Yields bits.toNat shift.toNat word next code) : extract bits shift word next = .ok code := by
  have hmask : (1 <<< bits - 1 : UInt32).toUInt64.toNat = 2 ^ bits.toNat - 1 := by
    have hone : (1 <<< bits : UInt32).toNat = 2 ^ bits.toNat := by
      have hlt : 2 ^ bits.toNat < 2 ^ 32 := Nat.pow_lt_pow_right (by decide) (by omega)
      rw [UInt32.toNat_shiftLeft, Nat.mod_eq_of_lt (show bits.toNat < 32 by omega), Nat.shiftLeft_eq,
        UInt32.toNat_one, Nat.one_mul, Nat.mod_eq_of_lt hlt]
    have hle : (1 : UInt32) ≤ 1 <<< bits := by
      rw [UInt32.le_iff_toNat_le, hone]
      exact Nat.two_pow_pos _
    rw [UInt32.toNat_toUInt64, UInt32.toNat_sub_of_le _ _ hle, hone]
    rfl
  have hsum : (32 < shift + bits) ↔ 32 < shift.toNat + bits.toNat := by
    rw [UInt32.lt_iff_toNat_lt, UInt32.toNat_add, Nat.mod_eq_of_lt (by omega)]
    rfl
  have hlow (low : UInt32) : (low >>> shift).toUInt64.toNat = low.toNat >>> shift.toNat := by
    rw [UInt32.toNat_toUInt64, UInt32.toNat_shiftRight, Nat.mod_eq_of_lt hshift]
  obtain ⟨low, rfl, ⟨hinside, hcode⟩ | ⟨hstraddle, high, rfl, hcode⟩⟩ := h
  · rw [extract, Except.ok_bind]
    dsimp only
    rw [if_neg (hsum.not.mpr hinside), Except.pure_eq_ok, Except.ok_bind]
    refine congrArg Except.ok (UInt32.toNat_inj.mp ?_)
    rw [mask_eq hmask hbits, hlow, ← hcode, window, if_neg hinside, Nat.or_zero]
  · rw [extract, Except.ok_bind]
    dsimp only
    rw [if_pos (hsum.mpr hstraddle), Except.ok_bind, Except.pure_eq_ok, Except.ok_bind]
    refine congrArg Except.ok (UInt32.toNat_inj.mp ?_)
    have hsub : (32 - shift).toUInt64.toNat = 32 - shift.toNat := by
      rw [UInt32.toNat_toUInt64, UInt32.toNat_sub_of_le _ _ (UInt32.le_iff_toNat_le.mpr hshift.le)]
      rfl
    rw [mask_eq hmask hbits, UInt64.toNat_or, hlow, shiftLeft_eq (by omega), hsub, ← hcode, window,
      if_pos hstraddle]

/-- **A code of a row**, from where it lies in its block. -/
theorem packed_code_eq {load : UInt32 → Except VqFault UInt32} {bits subvector : UInt32}
    (hbits : 0 < bits.toNat ∧ bits.toNat ≤ 31) (h : PackedRow bits.toNat codes words)
    (hload : ∀ (index : UInt32) w, read words index.toNat = .ok w → load index = .ok w)
    (hi : subvector.toNat < codes.length) :
    packed_code load bits subvector = .ok codes[subvector.toNat] := by
  have hlt := subvector.toNat_lt
  have hoffset : ((subvector &&& 31) * bits).toNat = subvector.toNat % 32 * bits.toNat := by
    rw [UInt32.toNat_mul, toNat_and_31, Nat.mod_eq_of_lt]
    calc subvector.toNat % 32 * bits.toNat ≤ 31 * 31 := Nat.mul_le_mul (by omega) hbits.2
      _ < 2 ^ 32 := by decide
  obtain ⟨hword, hshift⟩ := block_place subvector.toNat bits.toNat
  have hlast : subvector.toNat / 32 * bits.toNat ≤ (2 ^ 27 - 1) * 31 :=
    Nat.mul_le_mul (by omega) hbits.2
  have hplace : ((subvector >>> 5) * bits + ((subvector &&& 31) * bits) >>> 5).toNat =
      subvector.toNat * bits.toNat / 32 := by
    have hhigh : ((subvector >>> 5) * bits).toNat = subvector.toNat / 32 * bits.toNat := by
      rw [UInt32.toNat_mul, toNat_shiftRight_5, Nat.mod_eq_of_lt (by omega)]
    have hbound : subvector.toNat % 32 * bits.toNat ≤ 31 * 31 := Nat.mul_le_mul (by omega) hbits.2
    rw [UInt32.toNat_add, hhigh, toNat_shiftRight_5, hoffset, ← hword, Nat.mod_eq_of_lt (by omega)]
  have hnext : ((subvector >>> 5) * bits + ((subvector &&& 31) * bits) >>> 5 + 1).toNat =
      subvector.toNat * bits.toNat / 32 + 1 := by
    have hbound : subvector.toNat * bits.toNat ≤ (2 ^ 32 - 1) * 31 := Nat.mul_le_mul (by omega) hbits.2
    rw [UInt32.toNat_add, hplace, UInt32.toNat_one, Nat.mod_eq_of_lt (by omega)]
  rw [packed_code]
  refine extract_eq hbits.2 ?_ ?_
  · rw [toNat_and_31]
    exact Nat.mod_lt _ (by decide)
  · rw [toNat_and_31, hoffset, hshift]
    refine (h.yields hbits hi).imp (fun w hw => hload _ w ?_) (fun _ w hw => hload _ w ?_)
    · rwa [hplace]
    · rwa [hnext]

/-! ### The codes of the host -/

/-- **The host's way** to read a code. -/
theorem code_at_eq {bits code_index : UInt64} (hbits : 0 < bits.toNat ∧ bits.toNat ≤ 31)
    (h : PackedRow bits.toNat codes words) (hi : code_index.toNat < codes.length) :
    code_at words code_index bits = .ok codes[code_index.toNat] := by
  have hlt := code_index.toNat_lt
  have hdiv : (code_index / 32).toNat = code_index.toNat / 32 := UInt64.toNat_div _ _
  have hmod : (code_index % 32).toNat = code_index.toNat % 32 := UInt64.toNat_mod _ _
  have hbound : code_index.toNat % 32 * bits.toNat ≤ 31 * 31 := Nat.mul_le_mul (by omega) hbits.2
  have hlast : code_index.toNat / 32 * bits.toNat ≤ (2 ^ 59 - 1) * 31 :=
    Nat.mul_le_mul (by omega) hbits.2
  -- none of the products and sums of the index wraps: its quotient by 32 has 59 bits
  have hoffset : (code_index % 32 * bits).toNat = code_index.toNat % 32 * bits.toNat := by
    rw [UInt64.toNat_mul, hmod, Nat.mod_eq_of_lt (by omega)]
  have hblock : (code_index / 32 * bits).toNat = code_index.toNat / 32 * bits.toNat := by
    rw [UInt64.toNat_mul, hdiv, Nat.mod_eq_of_lt (by omega)]
  -- the word and the shift are those of the bit at which the code begins
  obtain ⟨hword, hrest⟩ := block_place code_index.toNat bits.toNat
  have hplace : (code_index / 32 * bits + code_index % 32 * bits / 32).toNat =
      code_index.toNat * bits.toNat / 32 := by
    rw [UInt64.toNat_add, hblock, UInt64.toNat_div, hoffset, ← hword]
    exact Nat.mod_eq_of_lt (by change _ + code_index.toNat % 32 * bits.toNat / 32 < 2 ^ 64; omega)
  have hshift : (code_index % 32 * bits % 32).toNat = code_index.toNat * bits.toNat % 32 := by
    rw [UInt64.toNat_mod, hoffset, ← hrest]
    rfl
  have hnext : (code_index / 32 * bits + code_index % 32 * bits / 32 + 1).toNat =
      code_index.toNat * bits.toNat / 32 + 1 := by
    have : code_index.toNat * bits.toNat / 32 ≤ 2 ^ 59 * 31 := by omega
    rw [UInt64.toNat_add, hplace, UInt64.toNat_one, Nat.mod_eq_of_lt (by omega)]
  have hyields := h.yields hbits hi
  rw [← hplace, ← hshift] at hyields
  -- the mask is not shifted out of its word, since a code has fewer than 64 bits
  have hmask : (1 <<< bits - 1 : UInt64).toNat = 2 ^ bits.toNat - 1 := by
    have hpow : 2 ^ bits.toNat < 2 ^ 64 := Nat.pow_lt_pow_right (by decide) (by omega)
    have hone : (1 <<< bits : UInt64).toNat = 2 ^ bits.toNat := by
      rw [UInt64.toNat_shiftLeft, Nat.mod_eq_of_lt (show bits.toNat < 64 by omega), Nat.shiftLeft_eq,
        UInt64.toNat_one, Nat.one_mul, Nat.mod_eq_of_lt hpow]
    have hle : (1 : UInt64) ≤ 1 <<< bits := by
      rw [UInt64.le_iff_toNat_le, hone]
      exact Nat.two_pow_pos _
    rw [UInt64.toNat_sub_of_le _ _ hle, hone]
    rfl
  have hshiftlt : (code_index % 32 * bits % 32).toNat < 32 := by omega
  have hlow (low : UInt32) : (low.toUInt64 >>> (code_index % 32 * bits % 32)).toNat =
      low.toNat >>> (code_index % 32 * bits % 32).toNat := by
    rw [UInt64.toNat_shiftRight, UInt32.toNat_toUInt64,
      Nat.mod_eq_of_lt (show (code_index % 32 * bits % 32).toNat < 64 by omega)]
  have hsum : (32 < code_index % 32 * bits % 32 + bits) ↔
      32 < (code_index % 32 * bits % 32).toNat + bits.toNat := by
    rw [UInt64.lt_iff_toNat_lt, UInt64.toNat_add, Nat.mod_eq_of_lt (by omega)]
    rfl
  rw [hplace, ← hnext] at hyields
  rw [code_at]
  -- the code lies in one word, or goes on in the next
  obtain ⟨low, hread, ⟨hinside, hcode⟩ | ⟨hstraddle, high, hhigh, hcode⟩⟩ := hyields
  · rw [hplace, hread, Except.ok_bind, if_neg (hsum.not.mpr hinside), Except.pure_eq_ok, Except.ok_bind]
    refine congrArg Except.ok (UInt32.toNat_inj.mp ?_)
    rw [mask_eq hmask hbits.2, hlow, ← hcode, window, if_neg hinside, Nat.or_zero]
  · have hsub : (32 - code_index % 32 * bits % 32).toNat = 32 - (code_index % 32 * bits % 32).toNat :=
      UInt64.toNat_sub_of_le _ _ (UInt64.le_iff_toNat_le.mpr hshiftlt.le)
    rw [hplace, hread, Except.ok_bind, if_pos (hsum.mpr hstraddle), hhigh, Except.ok_bind,
      Except.pure_eq_ok, Except.ok_bind]
    refine congrArg Except.ok (UInt32.toNat_inj.mp ?_)
    rw [mask_eq hmask hbits.2, UInt64.toNat_or, hlow, shiftLeft_eq (by omega), hsub, ← hcode, window,
      if_pos hstraddle]

/-- The words that the codes up to an index need; the count wraps at the last index there is. -/
theorem packed_vq_word_count_succ {bits : UInt64} (hbits : 0 < bits.toNat ∧ bits.toNat ≤ 31)
    (code_index : UInt64) :
    ∃ required, packed_vq_word_count (code_index + 1) bits = .ok required ∧
      required.toNat =
        if code_index.toNat + 1 < 2 ^ 64 then (code_index.toNat / 32 + 1) * bits.toNat else 0 := by
  have hlt := code_index.toNat_lt
  have hcount : (code_index + 1).toNat = (code_index.toNat + 1) % 2 ^ 64 := UInt64.toNat_add _ _
  -- the blocks, rounded up, unless the index is the last of its type and the count wraps
  have hblocks : ((code_index + 1) / 32 + if (code_index + 1) % 32 ≠ 0 then 1 else 0 : UInt64).toNat =
      if code_index.toNat + 1 < 2 ^ 64 then code_index.toNat / 32 + 1 else 0 := by
    have hdiv : ((code_index + 1) / 32).toNat = (code_index.toNat + 1) % 2 ^ 64 / 32 := by
      rw [UInt64.toNat_div, hcount]
      rfl
    have hmod : (code_index + 1) % 32 = 0 ↔ (code_index.toNat + 1) % 2 ^ 64 % 32 = 0 := by
      rw [← UInt64.toNat_inj, UInt64.toNat_mod, hcount]
      rfl
    by_cases hwhole : (code_index + 1) % 32 = 0
    · rw [if_neg (not_not_intro hwhole), UInt64.add_zero, hdiv]
      have := hmod.mp hwhole
      split_ifs <;> omega
    · rw [if_pos hwhole, UInt64.toNat_add, hdiv, UInt64.toNat_one]
      have := hmod.not.mp hwhole
      split_ifs <;> omega
  have hzero : ¬(bits = 0 ∨ 31 < bits) := by
    rintro (rfl | hlarge)
    · exact absurd hbits.1 (by decide)
    · exact absurd (UInt64.lt_iff_toNat_lt.mp hlarge) (by change ¬31 < bits.toNat; omega)
  have hsmall : (code_index.toNat / 32 + 1) * bits.toNat ≤ 2 ^ 59 * 31 :=
    Nat.mul_le_mul (by omega) hbits.2
  -- a product that wraps is refused, and this one does not
  have hfits : ¬18446744073709551615 / bits <
      (code_index + 1) / 32 + if (code_index + 1) % 32 ≠ 0 then 1 else 0 := by
    rw [UInt64.not_lt, UInt64.le_iff_toNat_le, hblocks, UInt64.toNat_div, Nat.le_div_iff_mul_le hbits.1]
    change _ ≤ 2 ^ 64 - 1
    split_ifs <;> omega
  refine ⟨((code_index + 1) / 32 + if (code_index + 1) % 32 ≠ 0 then 1 else 0) * bits, ?_, ?_⟩
  · rw [packed_vq_word_count, throw_if_of_not hzero, Except.ok_bind]
    dsimp only
    rw [throw_if_of_not hfits]
    rfl
  · rw [UInt64.toNat_mul, hblocks]
    split_ifs
    · exact Nat.mod_eq_of_lt (by omega)
    · rw [Nat.zero_mul, Nat.zero_mod]

/-- What an exception is, as opposed to a read outside of the words. -/
def Throws {α : Type} (r : Except VqFault α) : Prop :=
  ∃ message, r = .error (.runtime_error message) ∨ r = .error (.out_of_range message)

theorem not_throws_ok {α : Type} (a : α) : ¬Throws (.ok a) := by
  rintro ⟨message, h | h⟩ <;> cases h

theorem not_throws_read {α : Type} (words : List α) (index : Nat) : ¬Throws (read words index) := by
  rw [read]
  cases words[index]? with
  | some word => exact not_throws_ok word
  | none => rintro ⟨message, h | h⟩ <;> cases h

/-- A sequence throws where one of its steps does. -/
theorem not_throws_bind {α β : Type} {x : Except VqFault α} {f : α → Except VqFault β} (hx : ¬Throws x)
    (hf : ∀ a, ¬Throws (f a)) : ¬Throws (x >>= f) := by
  cases x with
  | ok a => exact hf a
  | error e =>
    rintro ⟨message, h⟩
    refine hx ⟨message, h.imp (fun h => ?_) fun h => ?_⟩ <;> exact congrArg _ (Except.error.inj h)

/-- After the checks nothing is thrown. -/
theorem not_throws_code_at (words : List UInt32) (code_index bits : UInt64) :
    ¬Throws (code_at words code_index bits) := by
  refine not_throws_bind (not_throws_read _ _) fun low => ?_
  dsimp only
  split_ifs
  · exact not_throws_bind (not_throws_read _ _) fun _ => not_throws_ok _
  · exact not_throws_ok _

/-- **The check of the host**: arrays that are too short are refused, but at the last index. -/
theorem unpack_vq_code_throws_iff {bits : UInt64} (hbits : 0 < bits.toNat ∧ bits.toNat ≤ 31)
    (words : List UInt32) (code_index : UInt64) :
    (words.length < (code_index.toNat / 32 + 1) * bits.toNat →
        Throws (unpack_vq_code words code_index bits)) ↔
      code_index.toNat + 1 < 2 ^ 64 ∨ (code_index.toNat / 32 + 1) * bits.toNat ≤ words.length := by
  obtain ⟨required, hcount, hrequired⟩ := packed_vq_word_count_succ hbits code_index
  rw [unpack_vq_code, hcount, Except.ok_bind]
  by_cases hlast : code_index.toNat + 1 < 2 ^ 64
  · rw [if_pos hlast] at hrequired
    refine iff_of_true (fun hshort => ?_) (Or.inl hlast)
    rw [throw_if_of (hrequired.symm ▸ hshort)]
    exact ⟨_, Or.inr rfl⟩
  · rw [if_neg hlast] at hrequired
    rw [or_iff_right hlast, throw_if_of_not (by omega), Except.ok_bind]
    constructor
    · intro h
      by_contra hshort
      exact not_throws_code_at words code_index bits (h (by omega))
    · intro hlong hshort
      omega

/-- **A packed code is unpacked** by the host, wherever it lies: in one word, or across the end of
one and the beginning of the next. -/
theorem unpack_vq_code_eq {bits code_index : UInt64} (hbits : 0 < bits.toNat ∧ bits.toNat ≤ 31)
    (h : PackedRow bits.toNat codes words) (hi : code_index.toNat < codes.length) :
    unpack_vq_code words code_index bits = .ok codes[code_index.toNat] := by
  obtain ⟨required, hcount, hrequired⟩ := packed_vq_word_count_succ hbits code_index
  have hlength : (code_index.toNat / 32 + 1) * bits.toNat ≤ words.length := by
    rw [h.length]
    exact Nat.mul_le_mul_right _ (by omega)
  have henough : ¬words.length < required.toNat := by
    rw [hrequired]
    split_ifs <;> omega
  rw [unpack_vq_code, hcount, Except.ok_bind, throw_if_of_not henough, Except.ok_bind,
    code_at_eq hbits h hi]

/-! ### Words in memory -/

theorem getElem?_row_bytes (words : List UInt32) (k b : Nat) (hb : b < 4) :
    (row_bytes words)[4 * k + b]? = words[k]?.bind fun word => (LittleEndian.bytes 4 word.toNat)[b]? := by
  induction words generalizing k with
  | nil => rfl
  | cons word words ih =>
    rw [row_bytes, List.flatMap_cons, ← row_bytes]
    cases k with
    | zero =>
      rw [List.getElem?_append_left (by rw [LittleEndian.length_bytes]; omega)]
      simp
    | succ k =>
      rw [List.getElem?_append_right (by rw [LittleEndian.length_bytes]; omega),
        LittleEndian.length_bytes, show 4 * (k + 1) + b - 4 = 4 * k + b by omega, ih]
      rfl

/-- Four bytes make a word. -/
theorem word_of_bytes (word : UInt32) :
    (word.toNat % 256).toUInt8.toUInt32 ||| (word.toNat / 256 % 256).toUInt8.toUInt32 <<< 8 |||
        (word.toNat / 256 / 256 % 256).toUInt8.toUInt32 <<< 16 |||
        (word.toNat / 256 / 256 / 256 % 256).toUInt8.toUInt32 <<< 24 = word := by
  have hbyte (n : Nat) (shift : UInt32) (hshift : shift.toNat ≤ 24) :
      ((n % 256).toUInt8.toUInt32 <<< shift).toNat = (n % 256) <<< shift.toNat := by
    have hn : (n % 256).toUInt8.toUInt32.toNat = n % 256 := by
      rw [UInt8.toNat_toUInt32, UInt8.toNat_ofNat']
      exact Nat.mod_mod _ _
    have hlt : (n % 256) <<< shift.toNat < 2 ^ 32 := by
      rw [Nat.shiftLeft_eq]
      calc n % 256 * 2 ^ shift.toNat < 256 * 2 ^ shift.toNat :=
            Nat.mul_lt_mul_of_pos_right (Nat.mod_lt _ (by decide)) (Nat.two_pow_pos _)
        _ ≤ 256 * 2 ^ 24 := Nat.mul_le_mul_left _ (Nat.pow_le_pow_right (by decide) hshift)
    rw [UInt32.toNat_shiftLeft, hn, Nat.mod_eq_of_lt (show shift.toNat < 32 by omega),
      Nat.mod_eq_of_lt hlt]
  have hor {low high k : Nat} (hlow : low < 2 ^ k) : low ||| high <<< k = low + high * 2 ^ k := by
    rw [Nat.or_comm, ← Nat.shiftLeft_add_eq_or_of_lt hlow, Nat.shiftLeft_eq, Nat.add_comm]
  have hlow : (word.toNat % 256).toUInt8.toUInt32.toNat = word.toNat % 256 := by
    rw [UInt8.toNat_toUInt32, UInt8.toNat_ofNat']
    exact Nat.mod_mod _ _
  have hlt := word.toNat_lt
  refine UInt32.toNat_inj.mp ?_
  rw [UInt32.toNat_or, UInt32.toNat_or, UInt32.toNat_or, hlow, hbyte _ 8 (by decide),
    hbyte _ 16 (by decide), hbyte _ 24 (by decide)]
  change word.toNat % 256 ||| (word.toNat / 256 % 256) <<< 8 |||
    (word.toNat / 256 / 256 % 256) <<< 16 ||| (word.toNat / 256 / 256 / 256 % 256) <<< 24 = _
  rw [@hor (word.toNat % 256) (word.toNat / 256 % 256) 8 (by omega),
    @hor (word.toNat % 256 + word.toNat / 256 % 256 * 2 ^ 8) (word.toNat / 256 / 256 % 256) 16 (by omega),
    hor (by omega)]
  omega

/-- **A word is loaded** from its bytes. -/
theorem load_u32_unaligned_eq {index word : UInt32} (h : read words index.toNat = .ok word) :
    load_u32_unaligned (row_bytes words) index.toUInt64 = .ok word := by
  have hword := getElem?_of_read h
  have hindex : index.toUInt64.toNat = index.toNat := UInt32.toNat_toUInt64 index
  have hlt := index.toNat_lt
  have hoffset : (index.toUInt64 * 4).toNat = 4 * index.toNat := by
    rw [UInt64.toNat_mul, hindex, Nat.mul_comm]
    exact Nat.mod_eq_of_lt (by change 4 * index.toNat < 2 ^ 64; omega)
  have hplace (b : UInt64) (hb : b.toNat < 4) : (index.toUInt64 * 4 + b).toNat = 4 * index.toNat + b.toNat := by
    rw [UInt64.toNat_add, hoffset, Nat.mod_eq_of_lt (by omega)]
  have hread (b : Nat) (hb : b < 4) : read (row_bytes words) (4 * index.toNat + b) =
      .ok ((LittleEndian.bytes 4 word.toNat).get ⟨b, by rwa [LittleEndian.length_bytes]⟩) := by
    rw [read, getElem?_row_bytes words _ b hb, hword, Option.bind_some, List.getElem?_eq_getElem]
    rfl
  rw [load_u32_unaligned]
  have h0 := hread 0 (by decide)
  have h1 := hread 1 (by decide)
  have h2 := hread 2 (by decide)
  have h3 := hread 3 (by decide)
  have hp1 : (index.toUInt64 * 4 + 1).toNat = 4 * index.toNat + 1 := hplace 1 (by decide)
  have hp2 : (index.toUInt64 * 4 + 2).toNat = 4 * index.toNat + 2 := hplace 2 (by decide)
  have hp3 : (index.toUInt64 * 4 + 3).toNat = 4 * index.toNat + 3 := hplace 3 (by decide)
  rw [Nat.add_zero] at h0
  rw [hoffset, h0, Except.ok_bind, hp1, h1, Except.ok_bind, hp2, h2, Except.ok_bind, hp3, h3]
  exact congrArg Except.ok (word_of_bytes word)

/-! ### The codes of the kernels -/

theorem vq14_code_eq (h : PackedRow 14 codes words) {subvector : UInt32}
    (hi : subvector.toNat < codes.length) :
    vq14_code (row_bytes words) subvector = .ok codes[subvector.toNat] :=
  @packed_code_eq codes words _ 14 subvector (by decide) h (fun _ _ hread => load_u32_unaligned_eq hread) hi

theorem gemmseg_code_eq {bits subvector : UInt32} (hbits : 0 < bits.toNat ∧ bits.toNat ≤ 31)
    (h : PackedRow bits.toNat codes words) (direct_row : List UInt8)
    (hi : subvector.toNat < codes.length) :
    gemmseg_code bits direct_row words subvector = .ok codes[subvector.toNat] := by
  have hpacked : bits ≠ 0 := by
    rintro rfl
    exact absurd hbits.1 (by decide)
  rw [gemmseg_code, if_neg hpacked]
  exact packed_code_eq hbits h (fun _ _ hread => hread) hi

theorem mapM_ok {ε α β : Type} {f : α → Except ε β} {c : α → β} {l : List α}
    (h : ∀ a ∈ l, f a = .ok (c a)) : l.mapM f = .ok (l.map c) := by
  induction l with
  | nil => rfl
  | cons a l ih =>
    rw [List.forall_mem_cons] at h
    rw [List.mapM_cons, h.1, Except.ok_bind, ih h.2]
    rfl

theorem foldlM_ok {ε α β γ : Type} {f : α → Except ε β} {c : α → β} {step : γ → α → β → γ} {l : List α}
    (h : ∀ a ∈ l, f a = .ok (c a)) (value : γ) :
    l.foldlM (fun value a => do return step value a (← f a)) value =
      .ok (l.foldl (fun value a => step value a (c a)) value) := by
  induction l generalizing value with
  | nil => rfl
  | cons a l ih =>
    rw [List.forall_mem_cons] at h
    rw [List.foldlM_cons, h.1, Except.ok_bind, Except.pure_eq_ok, Except.ok_bind, ih h.2]
    rfl

section GroupDot

variable {α : Type} {accumulate : α → UInt32 → UInt32 → α} {group : UInt32}

/-- The codes of a group, added up in order. -/
def group_sum (accumulate : α → UInt32 → UInt32 → α) (codes : List UInt32) (group : UInt32) (value : α) : α :=
  ([0, 1, 2, 3, 4, 5, 6, 7] : List UInt32).foldl (fun value index =>
    accumulate value index (codes.getD (group.toNat * 8 + index.toNat) 0)) value

theorem index_lt {index : UInt32} (h : index ∈ ([0, 1, 2, 3, 4, 5, 6, 7] : List UInt32)) :
    index.toNat < 8 := by
  have hall : ([0, 1, 2, 3, 4, 5, 6, 7] : List UInt32).all (·.toNat < 8) = true := by decide
  exact of_decide_eq_true (List.all_eq_true.mp hall index h)

theorem word_lt {word : UInt32} (h : word ∈ ([0, 1, 2, 3] : List UInt32)) : word.toNat < 4 := by
  have hall : ([0, 1, 2, 3] : List UInt32).all (·.toNat < 4) = true := by decide
  exact of_decide_eq_true (List.all_eq_true.mp hall word h)

theorem vq_d8_group_dot_eq (h : PackedRow 14 codes words) (hmax : codes.length ≤ 2 ^ 32)
    (hgroup : group.toNat * 8 + 8 ≤ codes.length) (value : α) :
    vq_d8_group_dot accumulate (row_bytes words) group value =
      .ok (group_sum accumulate codes group value) := by
  refine foldlM_ok (fun index hindex => ?_) value
  have hlt := index_lt hindex
  have hsub : (group * 8 + index).toNat = group.toNat * 8 + index.toNat := by
    rw [UInt32.toNat_add, UInt32.toNat_mul]
    change (group.toNat * 8 % 2 ^ 32 + index.toNat) % 2 ^ 32 = _
    omega
  rw [vq14_code_eq h (by omega), List.getD_eq_getElem?_getD, List.getElem?_eq_getElem (by omega),
    Option.getD_some]
  simp only [hsub]

theorem group_words_eq {first_word : UInt32} (hrow : first_word.toNat + 3 < words.length)
    (hmax : first_word.toNat + 3 < 2 ^ 32) :
    group_words (row_bytes words) first_word =
      .ok (([0, 1, 2, 3] : List UInt32).map fun word => words.getD (first_word.toNat + word.toNat) 0) := by
  refine mapM_ok fun word hword => load_u32_unaligned_eq ?_
  have hlt : word.toNat < 4 := word_lt hword
  have hindex : (first_word + word).toNat = first_word.toNat + word.toNat := by
    rw [UInt32.toNat_add, Nat.mod_eq_of_lt (by omega)]
  have hin : first_word.toNat + word.toNat < words.length := by omega
  rw [hindex, read_of_lt hin, List.getD_eq_getElem?_getD, List.getElem?_eq_getElem hin, Option.getD_some]

/-- A word of the row, from the four. -/
theorem read_group_words {first k : Nat} (hk : k < 4) {w : UInt32} (h : read words (first + k) = .ok w) :
    read (([0, 1, 2, 3] : List UInt32).map fun word => words.getD (first + word.toNat) 0) k = .ok w := by
  have hw : words.getD (first + k) 0 = w := by
    rw [List.getD_eq_getElem?_getD, getElem?_of_read h, Option.getD_some]
  rw [← hw]
  match k, hk with
  | 0, _ => rfl
  | 1, _ => rfl
  | 2, _ => rfl
  | 3, _ => rfl

/-- A code of a group lies in the four words, also where it straddles two of them. -/
theorem cached_code_eq (h : PackedRow 14 codes words) {cached_shift index : UInt32}
    (hshift : cached_shift.toNat = group.toNat * 8 * 14 % 32) (hindex : index.toNat < 8)
    (hi : group.toNat * 8 + index.toNat < codes.length) :
    cached_code (([0, 1, 2, 3] : List UInt32).map fun word =>
        words.getD (group.toNat * 8 * 14 / 32 + word.toNat) 0) cached_shift index =
      .ok codes[group.toNat * 8 + index.toNat] := by
  have hbit : (cached_shift + index * 14).toNat =
      group.toNat * 8 * 14 % 32 + index.toNat * 14 := by
    rw [UInt32.toNat_add, UInt32.toNat_mul, hshift]
    change (group.toNat * 8 * 14 % 32 + index.toNat * 14 % 2 ^ 32) % 2 ^ 32 = _
    omega
  have hword := toNat_shiftRight_5 (cached_shift + index * 14)
  have hrest := toNat_and_31 (cached_shift + index * 14)
  have hnext : ((cached_shift + index * 14) >>> 5 + 1).toNat =
      ((cached_shift + index * 14) >>> 5).toNat + 1 := by
    rw [UInt32.toNat_add, hword, UInt32.toNat_one]
    omega
  -- the words of the row and those of the group are the same, from the group's first on
  have hplace : (group.toNat * 8 + index.toNat) * 14 / 32 =
      group.toNat * 8 * 14 / 32 + ((cached_shift + index * 14) >>> 5).toNat := by
    omega
  have hmod : (group.toNat * 8 + index.toNat) * 14 % 32 = (cached_shift + index * 14 &&& 31).toNat := by
    omega
  have hyields := h.yields (by decide) hi
  rw [hplace, hmod] at hyields
  refine extract_eq (by decide) (by omega) (hyields.imp (fun w hw => ?_) fun hstraddle w hw => ?_)
  · exact read_group_words (by omega) hw
  · rw [hnext]
    exact read_group_words (by omega) hw

/-- **Four words are enough** for the eight codes of a group: these have 112 bits, and begin at one
of four places in their first word. -/
theorem vq_d8_group_dot_cached_eq (h : PackedRow 14 codes words) (hmax : codes.length ≤ 2 ^ 32)
    (hgroup : group.toNat * 8 + 8 ≤ codes.length) (value : α) :
    vq_d8_group_dot_cached accumulate (row_bytes words) group value =
      .ok (group_sum accumulate codes group value) := by
  have hsub : (group * 8).toNat = group.toNat * 8 := by
    rw [UInt32.toNat_mul]
    exact Nat.mod_eq_of_lt (by change group.toNat * 8 < 2 ^ 32; omega)
  have hblock : ((group * 8 &&& 31) * (14 : UInt32)).toNat = group.toNat * 8 % 32 * 14 := by
    rw [UInt32.toNat_mul, toNat_and_31, hsub]
    exact Nat.mod_eq_of_lt (by change group.toNat * 8 % 32 * 14 < 2 ^ 32; omega)
  obtain ⟨hplace, hshift⟩ := block_place (group.toNat * 8) 14
  have hfirst : ((group * 8) >>> 5 * (14 : UInt32) + ((group * 8 &&& 31) * (14 : UInt32)) >>> 5).toNat =
      group.toNat * 8 * 14 / 32 := by
    rw [UInt32.toNat_add, UInt32.toNat_mul, toNat_shiftRight_5, toNat_shiftRight_5, hsub, hblock]
    change (group.toNat * 8 / 32 * 14 % 2 ^ 32 + group.toNat * 8 % 32 * 14 / 32) % 2 ^ 32 = _
    omega
  have hcached : ((group * 8 &&& 31) * (14 : UInt32) &&& 31).toNat = group.toNat * 8 * 14 % 32 := by
    rw [toNat_and_31, hblock, hshift]
  have hlength := h.length
  have hwords := @group_words_eq words
    ((group * 8) >>> 5 * (14 : UInt32) + ((group * 8 &&& 31) * (14 : UInt32)) >>> 5)
    (by omega) (by omega)
  rw [hfirst] at hwords
  rw [vq_d8_group_dot_cached, hwords, Except.ok_bind]
  refine foldlM_ok (fun index hindex => ?_) value
  have hlt := index_lt hindex
  rw [cached_code_eq h hcached hlt (by omega), List.getD_eq_getElem?_getD,
    List.getElem?_eq_getElem (by omega), Option.getD_some]

end GroupDot

/-! ### Packing a row -/

/-- A row of codes, packed. -/
def pack_row (bits : Nat) (codes : List UInt32) : List UInt32 :=
  (pack 32 bits ((codes.length + 31) / 32 * bits) (codes.map UInt32.toNat)).map UInt32.ofNat

theorem packedRow_pack_row {bits : Nat} (h : ∀ code ∈ codes, code.toNat < 2 ^ bits) :
    PackedRow bits codes (pack_row bits codes) := by
  have hpacked : Packed 32 bits (codes.map UInt32.toNat)
      (pack 32 bits ((codes.length + 31) / 32 * bits) (codes.map UInt32.toNat)) := by
    refine packed_pack (by decide) (List.forall_mem_map.mpr h) ?_
    rw [List.length_map, Nat.mul_assoc, Nat.mul_comm bits 32, ← Nat.mul_assoc]
    exact Nat.mul_le_mul_right _ (by omega)
  have hwords : (pack_row bits codes).map UInt32.toNat =
      pack 32 bits ((codes.length + 31) / 32 * bits) (codes.map UInt32.toNat) := by
    rw [pack_row, List.map_map]
    refine (List.map_congr_left fun word hword => ?_).trans (List.map_id _)
    exact UInt32.toNat_ofNat_of_lt' (hpacked.word_lt word hword)
  refine ⟨hwords ▸ hpacked, ?_⟩
  rw [pack_row, List.length_map, length_pack]

/-- **Unpacking inverts packing**, on the host and in the kernels, which read nothing but the words
of the row; and the host refuses an array that is too short for an index, but at the last index
there is. -/
theorem vq_codes_unpack {bits : UInt32} (hbits : 0 < bits.toNat ∧ bits.toNat ≤ 31)
    (h : PackedRow bits.toNat codes words) :
    (∀ (i : UInt64) (hi : i.toNat < codes.length),
      unpack_vq_code words i bits.toUInt64 = .ok codes[i.toNat]) ∧
    (∀ direct_row (i : UInt32) (hi : i.toNat < codes.length),
      gemmseg_code bits direct_row words i = .ok codes[i.toNat]) ∧
    (bits = 14 →
      (∀ (i : UInt32) (hi : i.toNat < codes.length),
        vq14_code (row_bytes words) i = .ok codes[i.toNat]) ∧
      ∀ group : UInt32, codes.length ≤ 2 ^ 32 → group.toNat * 8 + 8 ≤ codes.length →
        ∀ {α : Type} (accumulate : α → UInt32 → UInt32 → α) (value : α),
          vq_d8_group_dot_cached accumulate (row_bytes words) group value =
              .ok (group_sum accumulate codes group value) ∧
            vq_d8_group_dot accumulate (row_bytes words) group value =
              .ok (group_sum accumulate codes group value)) ∧
    ∀ (array : List UInt32) (i : UInt64),
      (array.length < (i.toNat / 32 + 1) * bits.toNat →
          Throws (unpack_vq_code array i bits.toUInt64)) ↔
        i.toNat + 1 < 2 ^ 64 ∨ (i.toNat / 32 + 1) * bits.toNat ≤ array.length := by
  have hwide : bits.toUInt64.toNat = bits.toNat := UInt32.toNat_toUInt64 bits
  rw [← hwide] at h hbits ⊢
  refine ⟨fun i hi => unpack_vq_code_eq hbits h hi, fun direct_row i hi => ?_, ?_,
    unpack_vq_code_throws_iff hbits⟩
  · rw [hwide] at h hbits
    exact gemmseg_code_eq hbits h direct_row hi
  · rintro rfl
    exact ⟨fun i hi => vq14_code_eq h hi, fun group hmax hgroup α accumulate value =>
      ⟨vq_d8_group_dot_cached_eq h hmax hgroup value, vq_d8_group_dot_eq h hmax hgroup value⟩⟩

/-- Forty codes of 14 bits; the third straddles two words. -/
theorem vq_codes_unpack_forty :
    unpack_vq_code (pack_row 14 ((List.range 40).map fun i => (i * 397 : Nat).toUInt32)) 2 14 = .ok 794 :=
  have hall : ((List.range 40).map fun i => (i * 397 : Nat).toUInt32).all
      (·.toNat < 2 ^ 14) = true := by decide
  have hsmall : ∀ code ∈ (List.range 40).map fun i => (i * 397 : Nat).toUInt32,
      code.toNat < 2 ^ 14 :=
    fun code hcode => of_decide_eq_true (List.all_eq_true.mp hall code hcode)
  (@vq_codes_unpack ((List.range 40).map fun i => (i * 397 : Nat).toUInt32) _ 14 (by decide)
    (packedRow_pack_row hsmall)).1 2 (by decide)

/-- At the last index an empty array is not refused, but read. -/
theorem not_throws_last_index : ¬Throws (unpack_vq_code [] 18446744073709551615 14) := by
  have h := (unpack_vq_code_throws_iff (show 0 < (14 : UInt64).toNat ∧ _ by decide) []
    18446744073709551615).not.mpr (by decide)
  exact fun hthrows => h fun _ => hthrows

end Qwen38
