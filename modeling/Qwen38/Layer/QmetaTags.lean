import Mathlib.LinearAlgebra.Matrix.RowCol
import Mathlib.Data.UInt
import Qwen38.Lib.BitPacking
import Qwen38.Lib.Except

/-!
# The tags of compact metadata

The scales and biases of a bank of experts are replaced by tags, indices into a dictionary of pairs.
The builder packs the tags of a row one after the other, with 9, 13 or 16 bits each, into as many
bytes as they fill, a column of the table at a time (`Qmeta.pack_indices`); it reads them back in
the same way (`Qmeta.unpack_indices`). The kernels read single tags from memory, with two or three
bytes around each (`Qmeta.window_tag`), or as a word where a tag is one.

A column is written into its own bits (`Qmeta.pack_group_ok`), so that the bytes of a row hold its
tags in the end (`Qmeta.packed_row`), and every reader returns them.
-/

namespace Qwen38

namespace Qmeta

open BitPacking
open Except (throw_if throw_if_of_not)

/-- The exceptions of the builder. -/
inductive BuildError where
  | zero_division
  | reshape (size rows groups : Nat)
  | out_of_bounds (index size : Nat)
  | runtime_error (message : String)
  deriving DecidableEq

variable {α : Type} {rows columns groups bits : Nat}

/-! ### Tables -/

/-- `table[:, index]`. -/
def column (table : Matrix (Fin rows) (Fin columns) α) (index : Nat) :
    Except BuildError (Fin rows → α) :=
  if h : index < columns then .ok fun row => table row ⟨index, h⟩
  else .error (.out_of_bounds index columns)

/-- `table[:, index] = values`. -/
def set_column (table : Matrix (Fin rows) (Fin columns) α) (index : Nat) (values : Fin rows → α) :
    Except BuildError (Matrix (Fin rows) (Fin columns) α) :=
  if h : index < columns then .ok (table.updateCol ⟨index, h⟩ values)
  else .error (.out_of_bounds index columns)

/-- `table[:, index] |= values`. -/
def or_column (table : Matrix (Fin rows) (Fin columns) UInt8) (index : Nat)
    (values : Fin rows → UInt8) : Except BuildError (Matrix (Fin rows) (Fin columns) UInt8) := do
  let old ← column table index
  set_column table index fun row => old row ||| values row

/-- `indices.reshape(rows, groups).astype(np.uint32)`. -/
def reshape (indices : List Nat) (rows groups : Nat) : Matrix (Fin rows) (Fin groups) UInt32 :=
  Matrix.of fun row group => UInt32.ofNat (indices.getD (row * groups + group) 0)

/-! ### The builder -/

/-- `row_bytes`. -/
def row_bytes (groups bits : Nat) : Nat := (groups * bits + 7) / 8

/-- `mask`. -/
def mask (bits : Nat) : UInt32 := UInt32.ofNat (2 ^ bits - 1)

/-- The values of a group, with no bits but those of a tag, go into two or three bytes of all
rows. -/
def put_group (bits group : Nat) (values : Fin rows → UInt32)
    (tags : Matrix (Fin rows) (Fin columns) UInt8) :
    Except BuildError (Matrix (Fin rows) (Fin columns) UInt8) := do
  let bit := group * bits
  let byte := bit / 8
  let shift := bit &&& 7
  let tags ← or_column tags byte fun row => (values row <<< UInt32.ofNat shift).toUInt8
  let tags ← or_column tags (byte + 1) fun row => (values row >>> UInt32.ofNat (8 - shift)).toUInt8
  if 16 < shift + bits then
    or_column tags (byte + 2) fun row => (values row >>> UInt32.ofNat (16 - shift)).toUInt8
  else return tags

/-- The tags of a group go into all rows. -/
def pack_group (bits : Nat) (shaped : Matrix (Fin rows) (Fin groups) UInt32)
    (tags : Matrix (Fin rows) (Fin columns) UInt8) (group : Nat) :
    Except BuildError (Matrix (Fin rows) (Fin columns) UInt8) := do
  let indices ← column shaped group
  put_group bits group (fun row => indices row &&& mask bits) tags

/-- `pack_indices`. -/
def pack_indices (indices : List Nat) (groups bits : Nat) :
    Except BuildError
      (Matrix (Fin (indices.length / groups)) (Fin (row_bytes groups bits)) UInt8) := do
  throw_if (groups = 0) .zero_division
  let rows := indices.length / groups
  throw_if (indices.length ≠ rows * groups) (.reshape indices.length rows groups)
  let shaped := reshape indices rows groups
  (List.range groups).foldlM (pack_group bits shaped) (Matrix.of fun _ _ => 0)

/-- The third byte of the windows of a column, for the tags that reach into it. -/
def with_third (tags : Matrix (Fin rows) (Fin columns) UInt8) (reaches : Prop) [Decidable reaches]
    (index : Nat) (window : Fin rows → UInt32) : Except BuildError (Fin rows → UInt32) :=
  if reaches then do
    let third ← column tags index
    return fun row => window row ||| (third row).toUInt32 <<< 16
  else return window

/-- The tags of a group, from all rows. -/
def unpack_group (bits : Nat) (tags : Matrix (Fin rows) (Fin columns) UInt8)
    (indices : Matrix (Fin rows) (Fin groups) UInt32) (group : Nat) :
    Except BuildError (Matrix (Fin rows) (Fin groups) UInt32) := do
  let bit := group * bits
  let byte := bit / 8
  let shift := bit &&& 7
  let first ← column tags byte
  let second ← column tags (byte + 1)
  let window ← with_third tags (16 < shift + bits) (byte + 2) fun row =>
    (first row).toUInt32 ||| (second row).toUInt32 <<< 8
  set_column indices group fun row => window row >>> UInt32.ofNat shift &&& mask bits

/-- `unpack_indices`; `empty` is what `np.empty` returns. -/
def unpack_indices (empty : Matrix (Fin rows) (Fin groups) UInt32)
    (tags : Matrix (Fin rows) (Fin columns) UInt8) (bits : Nat) :
    Except BuildError (Matrix (Fin rows) (Fin groups) UInt32) := do
  throw_if (columns ≠ row_bytes groups bits) (.runtime_error "invalid packed qmeta geometry")
  (List.range groups).foldlM (unpack_group bits tags) empty

/-! ### The kernels -/

/-- The bytes that are there for a kernel, by their position in a buffer. -/
abbrev Memory := Nat → Option UInt8

/-- The third byte of a window, for a tag that reaches into it. -/
def third_byte (tags : Memory) (reaches : Prop) [Decidable reaches] (position : Nat)
    (window : UInt32) : Option UInt32 :=
  if reaches then do
    let third ← tags position
    return window ||| third.toUInt32 <<< 16
  else return window

/-- A tag from the two or three bytes around it. -/
def window_tag (tags : Memory) (bits position : Nat) (shift : UInt32) : Option UInt32 := do
  let first ← tags position
  let second ← tags (position + 1)
  let window ← third_byte tags (16 < shift + UInt32.ofNat bits) (position + 2)
    (first.toUInt32 ||| second.toUInt32 <<< 8)
  return window >>> shift &&& (1 <<< UInt32.ofNat bits - 1)

/-- A tag that is a word of its own. -/
def word_tag (tags : Memory) (index : Nat) : Option UInt32 := do
  let first ← tags (2 * index)
  let second ← tags (2 * index + 1)
  return first.toUInt32 ||| second.toUInt32 <<< 8

/-- A tag in the kernels for experts, with as many groups in a row. -/
def row_tag (aligned16 : Bool) (groups bits : Nat) (tags : Memory) (row group : Nat) : Option UInt32 :=
  if bits = 16 ∧ aligned16 then word_tag tags (row * groups + group)
  else
    let bit := group * bits
    window_tag tags bits (row * row_bytes groups bits + bit >>> 3) (UInt32.ofNat (bit &&& 7))

/-- `gate_tag` and `up_tag` of `qmeta_gate_up`, with 2560 values in groups of 64. -/
def gate_up_tag (aligned16 : Bool) (bits : Nat) (tags : Memory) (row group : Nat) : Option UInt32 :=
  row_tag aligned16 (2560 / 64) bits tags row group

/-- `tag` of `qmeta_down_reduce`, with 640 values in groups of 64. -/
def down_reduce_tag (aligned16 : Bool) (bits : Nat) (tags : Memory) (row group : Nat) : Option UInt32 :=
  row_tag aligned16 (640 / 64) bits tags row group

/-- `tag` of `qmeta_decode`. -/
def decode_tag (groups bits : Nat) (tags : Memory) (index : UInt32) : Option UInt32 :=
  let group := index % UInt32.ofNat groups
  let row := index / UInt32.ofNat groups
  let bit := group * UInt32.ofNat bits
  window_tag tags bits (row.toNat * row_bytes groups bits + (bit >>> 3).toNat) (bit &&& 7)

/-! ### Bits of words -/

theorem toNat_ofNat_of_lt {n : Nat} (h : n < 2 ^ 32) : (UInt32.ofNat n).toNat = n :=
  UInt32.toNat_ofNat_of_lt' h

theorem two_pow_lt (hbits : bits ≤ 16) : 2 ^ bits < 2 ^ 32 := Nat.pow_lt_pow_right (by decide) (by omega)

theorem toNat_mask (hbits : bits ≤ 16) : (mask bits).toNat = 2 ^ bits - 1 :=
  toNat_ofNat_of_lt (by have := two_pow_lt hbits; omega)

theorem toNat_and_mask (hbits : bits ≤ 16) (value : UInt32) :
    (value &&& mask bits).toNat = value.toNat % 2 ^ bits := by
  rw [UInt32.toNat_and, toNat_mask hbits, Nat.and_two_pow_sub_one_eq_mod]

/-- The mask of the kernels is that of the builder. -/
theorem kernel_mask_eq (hbits : bits ≤ 16) : 1 <<< UInt32.ofNat bits - 1 = mask bits := by
  have hone : (1 <<< UInt32.ofNat bits : UInt32).toNat = 2 ^ bits := by
    rw [UInt32.toNat_shiftLeft, toNat_ofNat_of_lt (by omega), Nat.mod_eq_of_lt (show bits < 32 by omega),
      UInt32.toNat_one, Nat.one_shiftLeft, Nat.mod_eq_of_lt (two_pow_lt hbits)]
  have hle : (1 : UInt32) ≤ 1 <<< UInt32.ofNat bits := by
    rw [UInt32.le_iff_toNat_le, hone]
    exact Nat.two_pow_pos bits
  rw [← UInt32.toNat_inj, UInt32.toNat_sub_of_le _ _ hle, hone, toNat_mask hbits, UInt32.toNat_one]

section Bits

variable {value : UInt32} {first second third : UInt8} {shift n j : Nat}

theorem testBit_toUInt8_shiftLeft (hshift : shift < 8) (hj : j < 8) :
    (value <<< UInt32.ofNat shift).toUInt8.toNat.testBit j =
      (decide (shift ≤ j) && value.toNat.testBit (j - shift)) := by
  rw [UInt32.toNat_toUInt8, Nat.testBit_mod_two_pow, decide_eq_true hj, Bool.true_and,
    UInt32.toNat_shiftLeft, toNat_ofNat_of_lt (by omega), Nat.mod_eq_of_lt (show shift < 32 by omega),
    Nat.testBit_mod_two_pow, decide_eq_true (by omega), Bool.true_and, Nat.testBit_shiftLeft]

theorem testBit_toUInt8_shiftRight (hshift : shift ≤ 16) (hj : j < 8) :
    (value >>> UInt32.ofNat shift).toUInt8.toNat.testBit j = value.toNat.testBit (shift + j) := by
  rw [UInt32.toNat_toUInt8, Nat.testBit_mod_two_pow, decide_eq_true hj, Bool.true_and,
    UInt32.toNat_shiftRight, toNat_ofNat_of_lt (by omega), Nat.mod_eq_of_lt (show shift < 32 by omega),
    Nat.testBit_shiftRight]

/-- A byte moved up by whole bytes. -/
theorem toNat_shiftLeft_byte (byte : UInt8) {count : UInt32} (hcount : count.toNat ≤ 16) :
    (byte.toUInt32 <<< count).toNat = byte.toNat <<< count.toNat := by
  have hlt : byte.toNat <<< count.toNat < 2 ^ 32 := by
    rw [Nat.shiftLeft_eq]
    calc byte.toNat * 2 ^ count.toNat < 2 ^ 8 * 2 ^ count.toNat :=
          Nat.mul_lt_mul_of_pos_right byte.toNat_lt (Nat.two_pow_pos _)
      _ ≤ 2 ^ 8 * 2 ^ 16 := Nat.mul_le_mul_left _ (Nat.pow_le_pow_right (by decide) hcount)
      _ ≤ 2 ^ 32 := by decide
  rw [UInt32.toNat_shiftLeft, UInt8.toNat_toUInt32, Nat.mod_eq_of_lt (show count.toNat < 32 by omega),
    Nat.mod_eq_of_lt hlt]

theorem testBit_byte (byte : UInt8) (h : 8 ≤ n) : byte.toNat.testBit n = false :=
  Nat.testBit_lt_two_pow (byte.toNat_lt.trans_le (Nat.pow_le_pow_right (by decide) h))

/-- The bits of a window of two bytes. -/
theorem testBit_two_bytes (hn : n < 16) :
    (first.toUInt32 ||| second.toUInt32 <<< 8).toNat.testBit n =
      ([first, second].map UInt8.toNat |>.getD (n / 8) 0).testBit (n % 8) := by
  rw [UInt32.toNat_or, Nat.testBit_or, toNat_shiftLeft_byte second (by decide), UInt8.toNat_toUInt32,
    Nat.testBit_shiftLeft, show (8 : UInt32).toNat = 8 from rfl]
  rcases Nat.lt_or_ge n 8 with hlow | hhigh
  · rw [Nat.div_eq_of_lt hlow, Nat.mod_eq_of_lt hlow, decide_eq_false (by omega), Bool.false_and,
      Bool.or_false]
    rfl
  · rw [show n / 8 = 1 by omega, show n % 8 = n - 8 by omega, testBit_byte first hhigh,
      decide_eq_true hhigh, Bool.true_and, Bool.false_or]
    rfl

/-- The bits of a window of three bytes. -/
theorem testBit_three_bytes (hn : n < 24) :
    (first.toUInt32 ||| second.toUInt32 <<< 8 ||| third.toUInt32 <<< 16).toNat.testBit n =
      ([first, second, third].map UInt8.toNat |>.getD (n / 8) 0).testBit (n % 8) := by
  rw [UInt32.toNat_or, Nat.testBit_or, toNat_shiftLeft_byte third (by decide),
    Nat.testBit_shiftLeft, show (16 : UInt32).toNat = 16 from rfl]
  rcases Nat.lt_or_ge n 16 with hlow | hhigh
  · rw [decide_eq_false (by omega), Bool.false_and, Bool.or_false, testBit_two_bytes hlow]
    rcases Nat.lt_or_ge n 8 with hfirst | hsecond
    · rw [Nat.div_eq_of_lt hfirst]
      rfl
    · rw [show n / 8 = 1 by omega]
      rfl
  · rw [show n / 8 = 2 by omega, show n % 8 = n - 16 by omega, decide_eq_true hhigh, Bool.true_and,
      UInt32.toNat_or, Nat.testBit_or, toNat_shiftLeft_byte second (by decide), UInt8.toNat_toUInt32,
      Nat.testBit_shiftLeft, show (8 : UInt32).toNat = 8 from rfl, testBit_byte first (by omega),
      testBit_byte second (by omega), Bool.and_false, Bool.or_false, Bool.false_or]
    rfl

end Bits

/-! ### Columns -/

section Columns

variable {table : Matrix (Fin rows) (Fin columns) α} {index : Nat}

theorem column_of_lt (h : index < columns) :
    column table index = .ok fun row => table row ⟨index, h⟩ := dif_pos h

theorem set_column_of_lt (h : index < columns) (values : Fin rows → α) :
    set_column table index values = .ok (table.updateCol ⟨index, h⟩ values) := dif_pos h

/-- **A column that is written into** keeps its bits and gets new ones; the others stay as they
are. -/
theorem or_column_ok (tags : Matrix (Fin rows) (Fin columns) UInt8) (h : index < columns)
    (values : Fin rows → UInt8) :
    ∃ tags', or_column tags index values = .ok tags' ∧
      ∀ row (c : Fin columns) j, (tags' row c).toNat.testBit j =
        ((tags row c).toNat.testBit j || (decide (c.val = index) && (values row).toNat.testBit j)) := by
  rw [or_column, column_of_lt h, Except.ok_bind, set_column_of_lt h]
  refine ⟨_, rfl, fun row c j => ?_⟩
  rw [Matrix.updateCol_apply]
  by_cases hc : c.val = index
  · obtain rfl : c = ⟨index, h⟩ := Fin.ext hc
    rw [if_pos rfl, UInt8.toNat_or, Nat.testBit_or, decide_eq_true rfl, Bool.true_and]
  · rw [if_neg fun heq => hc (congrArg Fin.val heq), decide_eq_false hc, Bool.false_and,
      Bool.or_false]

end Columns

/-! ### Packing -/

/-- A value that begins inside of a byte lies in this byte and the next two. -/
theorem testBit_spread {value shift j : Nat} (byte c : Nat) (hvalue : value < 2 ^ bits)
    (hshift : shift < 8) (hj : j < 8) (hbits : bits ≤ 16) :
    ((decide (c = byte) && (decide (shift ≤ j) && value.testBit (j - shift)) ||
        decide (c = byte + 1) && value.testBit (8 - shift + j)) ||
      decide (16 < shift + bits) && (decide (c = byte + 2) && value.testBit (16 - shift + j))) =
      (decide (8 * byte + shift ≤ 8 * c + j) && value.testBit (8 * c + j - (8 * byte + shift))) := by
  have hzero (n : Nat) (hn : bits ≤ n) : value.testBit n = false :=
    Nat.testBit_lt_two_pow (hvalue.trans_le (Nat.pow_le_pow_right (by decide) hn))
  rcases Nat.lt_or_ge c byte with hbefore | hfrom
  · have hplace : ¬8 * byte + shift ≤ 8 * c + j := by omega
    simp [hplace, show c ≠ byte by omega, show c ≠ byte + 1 by omega, show c ≠ byte + 2 by omega]
  obtain ⟨k, rfl⟩ := Nat.exists_eq_add_of_le hfrom
  have hplace : 8 * (byte + k) + j - (8 * byte + shift) = 8 * k + j - shift := by omega
  have hle : 8 * byte + shift ≤ 8 * (byte + k) + j ↔ shift ≤ 8 * k + j := by omega
  simp only [hplace, hle]
  obtain rfl | rfl | rfl | hk : k = 0 ∨ k = 1 ∨ k = 2 ∨ 3 ≤ k := by omega
  · simp
  · simp [show 8 + j - shift = 8 - shift + j by omega, show shift ≤ 8 + j by omega]
  · by_cases hreach : 16 < shift + bits
    · simp [hreach, show 16 + j - shift = 16 - shift + j by omega, show shift ≤ 16 + j by omega]
    · simp [hreach, hzero (16 + j - shift) (by omega)]
  · simp [hzero (8 * k + j - shift) (by omega), show k ≠ 0 by omega, show k ≠ 1 by omega,
      show k ≠ 2 by omega]

theorem and_seven (n : Nat) : n &&& 7 = n % 8 := Nat.and_two_pow_sub_one_eq_mod n 3

/-- The bytes that a tag reaches into are bytes of its row. -/
theorem byte_lt (hbits : 9 ≤ bits) {group : Nat} (hgroup : group < groups) :
    group * bits / 8 + 1 < row_bytes groups bits ∧
      (16 < group * bits % 8 + bits → group * bits / 8 + 2 < row_bytes groups bits) := by
  have hend : group * bits + bits ≤ groups * bits :=
    calc group * bits + bits = (group + 1) * bits := (Nat.succ_mul group bits).symm
      _ ≤ groups * bits := Nat.mul_le_mul_right bits hgroup
  rw [row_bytes]
  omega

/-- The bits of a group are set to its values, in all rows; the others stay as they are. -/
def Writes (bits group : Nat) (values : Fin rows → Nat)
    (tags tags' : Matrix (Fin rows) (Fin columns) UInt8) : Prop :=
  ∀ row (c : Fin columns) j, j < 8 → (tags' row c).toNat.testBit j =
    ((tags row c).toNat.testBit j ||
      (decide (group * bits ≤ 8 * c + j) && (values row).testBit (8 * c + j - group * bits)))

theorem put_group_ok (hbits : 9 ≤ bits ∧ bits ≤ 16) {group : Nat} (hgroup : group < groups)
    (values : Fin rows → UInt32) (hvalues : ∀ row, (values row).toNat < 2 ^ bits)
    (tags : Matrix (Fin rows) (Fin (row_bytes groups bits)) UInt8) :
    ∃ tags', put_group bits group values tags = .ok tags' ∧
      Writes bits group (fun row => (values row).toNat) tags tags' := by
  obtain ⟨hsecond, hthird⟩ := byte_lt hbits.1 hgroup
  have hshift : group * bits % 8 < 8 := Nat.mod_lt _ (by decide)
  have hspread (row : Fin rows) (c : Fin (row_bytes groups bits)) (j : Nat) (hj : j < 8) :=
    testBit_spread (group * bits / 8) c (hvalues row) hshift hj hbits.2
  rw [Nat.div_add_mod] at hspread
  obtain ⟨tags₁, hrun₁, h₁⟩ := or_column_ok tags (show group * bits / 8 < _ by omega)
    fun row => (values row <<< UInt32.ofNat (group * bits % 8)).toUInt8
  obtain ⟨tags₂, hrun₂, h₂⟩ := or_column_ok tags₁ hsecond
    fun row => (values row >>> UInt32.ofNat (8 - group * bits % 8)).toUInt8
  rw [put_group, and_seven, hrun₁, Except.ok_bind, hrun₂, Except.ok_bind]
  by_cases hreach : 16 < group * bits % 8 + bits
  · obtain ⟨tags₃, hrun₃, h₃⟩ := or_column_ok tags₂ (hthird hreach)
      fun row => (values row >>> UInt32.ofNat (16 - group * bits % 8)).toUInt8
    refine ⟨tags₃, by rw [if_pos hreach, hrun₃], fun row c j hj => ?_⟩
    rw [h₃, h₂, h₁, testBit_toUInt8_shiftLeft hshift hj, testBit_toUInt8_shiftRight (by omega) hj,
      testBit_toUInt8_shiftRight (by omega) hj, ← hspread row c j hj, decide_eq_true hreach,
      Bool.true_and, Bool.or_assoc, Bool.or_assoc, Bool.or_assoc]
  · refine ⟨tags₂, by rw [if_neg hreach]; rfl, fun row c j hj => ?_⟩
    rw [h₂, h₁, testBit_toUInt8_shiftLeft hshift hj, testBit_toUInt8_shiftRight (by omega) hj,
      ← hspread row c j hj, decide_eq_false hreach, Bool.false_and, Bool.or_false, Bool.or_assoc]

/-- **A group is packed** within its rows. -/
theorem pack_group_ok (hbits : 9 ≤ bits ∧ bits ≤ 16) (shaped : Matrix (Fin rows) (Fin groups) UInt32)
    {group : Nat} (hgroup : group < groups)
    (tags : Matrix (Fin rows) (Fin (row_bytes groups bits)) UInt8) :
    ∃ tags', pack_group bits shaped tags group = .ok tags' ∧
      Writes bits group (fun row => (shaped row ⟨group, hgroup⟩).toNat % 2 ^ bits) tags tags' := by
  have hvalue (row : Fin rows) := toNat_and_mask hbits.2 (shaped row ⟨group, hgroup⟩)
  obtain ⟨tags', hrun, hwrites⟩ := put_group_ok hbits hgroup
    (fun row => shaped row ⟨group, hgroup⟩ &&& mask bits)
    (fun row => (hvalue row).trans_lt (Nat.mod_lt _ (Nat.two_pow_pos bits))) tags
  refine ⟨tags', ?_, ?_⟩
  · rw [pack_group, column_of_lt hgroup, Except.ok_bind, hrun]
  · rwa [funext hvalue] at hwrites

/-- The tags of a row. -/
def row_codes (bits : Nat) (shaped : Matrix (Fin rows) (Fin groups) UInt32) (row : Fin rows) :
    List Nat :=
  List.ofFn fun group => (shaped row group).toNat % 2 ^ bits

/-- The bytes of a row. -/
def row_words (tags : Matrix (Fin rows) (Fin columns) UInt8) (row : Fin rows) : List Nat :=
  List.ofFn fun c => (tags row c).toNat

theorem getD_row_words {tags : Matrix (Fin rows) (Fin columns) UInt8} {row : Fin rows} {c : Nat}
    (h : c < columns) : (row_words tags row).getD c 0 = (tags row ⟨c, h⟩).toNat := by
  rw [row_words, List.getD_eq_getElem?_getD, List.getElem?_ofFn, dif_pos h, Option.getD_some]

theorem getElem_row_codes {shaped : Matrix (Fin rows) (Fin groups) UInt32} {row : Fin rows}
    {group : Nat} (h : group < (row_codes bits shaped row).length) (hgroup : group < groups) :
    (row_codes bits shaped row)[group] = (shaped row ⟨group, hgroup⟩).toNat % 2 ^ bits :=
  List.getElem_ofFn _

/-- The bytes of a row hold its first tags, and nothing behind them. -/
def Holds (bits : Nat) (shaped : Matrix (Fin rows) (Fin groups) UInt32) (count : Nat)
    (tags : Matrix (Fin rows) (Fin columns) UInt8) : Prop :=
  ∀ row (c : Fin columns) j, j < 8 → (tags row c).toNat.testBit j =
    (decide (8 * c + j < count * bits) &&
      ((row_codes bits shaped row).getD ((8 * c + j) / bits) 0).testBit ((8 * c + j) % bits))

/-- One more group. -/
theorem Holds.writes {shaped : Matrix (Fin rows) (Fin groups) UInt32}
    {tags tags' : Matrix (Fin rows) (Fin columns) UInt8} {group : Nat} (hgroup : group < groups)
    (h : Holds bits shaped group tags)
    (hwrites : Writes bits group (fun row => (shaped row ⟨group, hgroup⟩).toNat % 2 ^ bits) tags tags') :
    Holds bits shaped (group + 1) tags' := by
  intro row c j hj
  have hcode : (row_codes bits shaped row).getD group 0 =
      (shaped row ⟨group, hgroup⟩).toNat % 2 ^ bits := by
    rw [row_codes, List.getD_eq_getElem?_getD, List.getElem?_ofFn, dif_pos hgroup, Option.getD_some]
  rw [hwrites row c j hj, h row c j hj]
  dsimp only
  rw [← hcode]
  generalize 8 * c.val + j = n
  have hlt : (row_codes bits shaped row).getD group 0 < 2 ^ bits := by
    rw [hcode]
    exact Nat.mod_lt _ (Nat.two_pow_pos bits)
  have hsucc : (group + 1) * bits = group * bits + bits := Nat.succ_mul group bits
  rcases Nat.lt_or_ge n (group * bits) with hbefore | hfrom
  · rw [decide_eq_true hbefore, decide_eq_false (Nat.not_le.mpr hbefore), Bool.false_and, Bool.or_false,
      decide_eq_true (by omega)]
  · rw [decide_eq_false (Nat.not_lt.mpr hfrom), Bool.false_and, Bool.false_or, decide_eq_true hfrom,
      Bool.true_and]
    rcases Nat.lt_or_ge n ((group + 1) * bits) with hinside | hpast
    · have hdiv : n / bits = group := Nat.div_eq_of_lt_le hfrom hinside
      have hmod : n % bits = n - group * bits := by
        rw [Nat.mod_eq_sub_mul_div, hdiv, Nat.mul_comm]
      rw [decide_eq_true hinside, Bool.true_and, hdiv, hmod]
    · rw [decide_eq_false (Nat.not_lt.mpr hpast), Bool.false_and]
      exact Nat.testBit_lt_two_pow (hlt.trans_le (Nat.pow_le_pow_right (by decide) (by omega)))

theorem holds_zero (shaped : Matrix (Fin rows) (Fin groups) UInt32) :
    Holds bits shaped 0 (Matrix.of fun _ _ => 0 : Matrix (Fin rows) (Fin columns) UInt8) := by
  intro row c j _
  rw [decide_eq_false (by omega), Bool.false_and]
  exact Nat.zero_testBit j

/-- **All groups are packed.** -/
theorem pack_indices_ok (hbits : 9 ≤ bits ∧ bits ≤ 16) (hgroups : 0 < groups) {indices : List Nat}
    (hsize : groups ∣ indices.length) :
    ∃ tags, pack_indices indices groups bits = .ok tags ∧
      Holds bits (reshape indices (indices.length / groups) groups) groups tags := by
  have hwhole : ¬indices.length ≠ indices.length / groups * groups :=
    not_not.mpr (Nat.div_mul_cancel hsize).symm
  rw [pack_indices, throw_if_of_not (by omega), Except.ok_bind]
  dsimp only
  rw [throw_if_of_not hwhole, Except.ok_bind]
  refine Except.foldlM_range_ok (fun group tags hgroup htags => ?_) (holds_zero _)
  obtain ⟨tags', hrun, hwrites⟩ := pack_group_ok hbits _ hgroup tags
  exact ⟨tags', hrun, htags.writes hgroup hwrites⟩

/-- **The bytes of a row are its packed tags.** -/
theorem packed_row {shaped : Matrix (Fin rows) (Fin groups) UInt32}
    {tags : Matrix (Fin rows) (Fin (row_bytes groups bits)) UInt8} (h : Holds bits shaped groups tags)
    (row : Fin rows) : Packed 8 bits (row_codes bits shaped row) (row_words tags row) where
  word_lt := by
    intro word hword
    obtain ⟨c, rfl⟩ := List.mem_ofFn.mp hword
    exact (tags row c).toNat_lt
  code_lt := by
    intro code hcode
    obtain ⟨group, rfl⟩ := List.mem_ofFn.mp hcode
    exact Nat.mod_lt _ (Nat.two_pow_pos bits)
  length_le := by
    rw [row_codes, row_words, List.length_ofFn, List.length_ofFn, row_bytes]
    omega
  bit := by
    intro i hi j hj
    have hgroup : i < groups := by rwa [row_codes, List.length_ofFn] at hi
    have hend : i * bits + j < groups * bits :=
      calc i * bits + j < i * bits + bits := Nat.add_lt_add_left hj _
        _ = (i + 1) * bits := (Nat.succ_mul i bits).symm
        _ ≤ groups * bits := Nat.mul_le_mul_right bits hgroup
    have hbyte : (i * bits + j) / 8 < row_bytes groups bits := by
      rw [row_bytes]
      omega
    have hdiv : (i * bits + j) / bits = i := by
      rw [Nat.mul_comm i, Nat.mul_add_div (by omega), Nat.div_eq_of_lt hj, Nat.add_zero]
    have hmod : (i * bits + j) % bits = j := by
      rw [Nat.mul_comm i, Nat.mul_add_mod, Nat.mod_eq_of_lt hj]
    have hbit := h row ⟨_, hbyte⟩ ((i * bits + j) % 8) (Nat.mod_lt _ (by decide))
    rw [Nat.div_add_mod, decide_eq_true hend, Bool.true_and, hdiv, hmod,
      List.getD_eq_getElem _ _ hi] at hbit
    rw [streamBit, getD_row_words hbyte, hbit]

/-! ### Reading -/

/-- **A tag is read** from the two or three bytes it lies in. -/
theorem tag_eq {codes words : List Nat} {group : Nat} {first second third : UInt8}
    (h : Packed 8 bits codes words) (hbits : bits ≤ 16) (hgroup : group < codes.length)
    (hfirst : words.getD (group * bits / 8) 0 = first.toNat)
    (hsecond : words.getD (group * bits / 8 + 1) 0 = second.toNat)
    (hthird : 16 < group * bits % 8 + bits → words.getD (group * bits / 8 + 2) 0 = third.toNat) :
    ((if 16 < group * bits % 8 + bits then
        first.toUInt32 ||| second.toUInt32 <<< 8 ||| third.toUInt32 <<< 16
      else first.toUInt32 ||| second.toUInt32 <<< 8) >>> UInt32.ofNat (group * bits % 8) &&&
        mask bits).toNat = codes[group] := by
  have hshift : group * bits % 8 < 8 := Nat.mod_lt _ (by decide)
  refine h.eq_of_testBit (by decide) hgroup ?_ fun j hj => ?_
  · rw [toNat_and_mask hbits]
    exact Nat.mod_lt _ (Nat.two_pow_pos bits)
  rw [toNat_and_mask hbits, Nat.testBit_mod_two_pow, decide_eq_true hj, Bool.true_and,
    UInt32.toNat_shiftRight, toNat_ofNat_of_lt (by omega),
    Nat.mod_eq_of_lt (show group * bits % 8 < 32 by omega), Nat.testBit_shiftRight]
  generalize hn : group * bits % 8 + j = n
  split_ifs with hreach
  · rw [testBit_three_bytes (by omega)]
    obtain hk | hk | hk : n / 8 = 0 ∨ n / 8 = 1 ∨ n / 8 = 2 := by omega
    · rw [hk, Nat.add_zero, hfirst]
      rfl
    · rw [hk, hsecond]
      rfl
    · rw [hk, hthird hreach]
      rfl
  · rw [testBit_two_bytes (by omega)]
    obtain hk | hk : n / 8 = 0 ∨ n / 8 = 1 := by omega
    · rw [hk, Nat.add_zero, hfirst]
      rfl
    · rw [hk, hsecond]
      rfl

section Reading

variable {shaped : Matrix (Fin rows) (Fin groups) UInt32}
  {tags : Matrix (Fin rows) (Fin (row_bytes groups bits)) UInt8} {memory : Memory} {row : Fin rows}
  {group : Nat}

/-- The tag in the bytes of a row. -/
theorem tag_of_row (hbits : bits ≤ 16) (htags : Holds bits shaped groups tags) (row : Fin rows)
    (hgroup : group < groups) (hfirst : group * bits / 8 < row_bytes groups bits)
    (hsecond : group * bits / 8 + 1 < row_bytes groups bits) (third : UInt8)
    (hthird : 16 < group * bits % 8 + bits →
      (row_words tags row).getD (group * bits / 8 + 2) 0 = third.toNat) :
    ((if 16 < group * bits % 8 + bits then
        (tags row ⟨_, hfirst⟩).toUInt32 ||| (tags row ⟨_, hsecond⟩).toUInt32 <<< 8 |||
          third.toUInt32 <<< 16
      else (tags row ⟨_, hfirst⟩).toUInt32 ||| (tags row ⟨_, hsecond⟩).toUInt32 <<< 8) >>>
        UInt32.ofNat (group * bits % 8) &&& mask bits).toNat =
      (shaped row ⟨group, hgroup⟩).toNat % 2 ^ bits := by
  have hcode : group < (row_codes bits shaped row).length := by rwa [row_codes, List.length_ofFn]
  rw [tag_eq (packed_row htags row) hbits hcode (getD_row_words hfirst) (getD_row_words hsecond) hthird]
  exact getElem_row_codes hcode hgroup

/-- Reading a group of the builder's table. -/
theorem unpack_group_ok (hbits : 9 ≤ bits ∧ bits ≤ 16) (htags : Holds bits shaped groups tags)
    (indices : Matrix (Fin rows) (Fin groups) UInt32) (hgroup : group < groups) :
    ∃ indices', unpack_group bits tags indices group = .ok indices' ∧
      ∀ row (g : Fin groups), (indices' row g).toNat =
        if g.val = group then (shaped row ⟨group, hgroup⟩).toNat % 2 ^ bits
        else (indices row g).toNat := by
  obtain ⟨hsecond, hthird⟩ := byte_lt hbits.1 hgroup
  have hfirst : group * bits / 8 < row_bytes groups bits := by omega
  have hset (values : Fin rows → UInt32)
      (hvalues : ∀ row, (values row).toNat = (shaped row ⟨group, hgroup⟩).toNat % 2 ^ bits) :
      ∃ indices', set_column indices group values = .ok indices' ∧
        ∀ row (g : Fin groups), (indices' row g).toNat =
          if g.val = group then (shaped row ⟨group, hgroup⟩).toNat % 2 ^ bits
          else (indices row g).toNat := by
    refine ⟨_, set_column_of_lt hgroup values, fun row g => ?_⟩
    rw [Matrix.updateCol_apply]
    by_cases hg : g.val = group
    · rw [if_pos (Fin.ext hg), if_pos hg, hvalues]
    · rw [if_neg fun heq => hg (congrArg Fin.val heq), if_neg hg]
  rw [unpack_group, and_seven, column_of_lt hfirst, Except.ok_bind, column_of_lt hsecond, Except.ok_bind,
    with_third]
  by_cases hreach : 16 < group * bits % 8 + bits
  · rw [if_pos hreach, column_of_lt (hthird hreach)]
    refine hset _ fun row => ?_
    have hrow := tag_of_row hbits.2 htags row hgroup hfirst hsecond (tags row ⟨_, hthird hreach⟩)
      fun h => getD_row_words (hthird h)
    rwa [if_pos hreach] at hrow
  · rw [if_neg hreach]
    refine hset _ fun row => ?_
    have hrow := tag_of_row hbits.2 htags row hgroup hfirst hsecond 0 fun h => absurd h hreach
    rwa [if_neg hreach] at hrow

/-- **The builder reads its tags back**, whatever the new table held. -/
theorem unpack_indices_ok (hbits : 9 ≤ bits ∧ bits ≤ 16) (htags : Holds bits shaped groups tags)
    (hshaped : ∀ row group, (shaped row group).toNat < 2 ^ bits)
    (empty : Matrix (Fin rows) (Fin groups) UInt32) :
    unpack_indices empty tags bits = .ok shaped := by
  obtain ⟨indices, hrun, hindices⟩ : ∃ indices,
      (List.range groups).foldlM (unpack_group bits tags) empty = .ok indices ∧
        ∀ row (g : Fin groups), g.val < groups → indices row g = shaped row g := by
    refine Except.foldlM_range_ok (P := fun k (indices : Matrix (Fin rows) (Fin groups) UInt32) =>
      ∀ row (g : Fin groups), g.val < k → indices row g = shaped row g) ?_ ?_
    · intro k indices hk hindices
      obtain ⟨indices', hstep, hwritten⟩ := unpack_group_ok hbits htags indices hk
      refine ⟨indices', hstep, fun row g hg => ?_⟩
      rw [← UInt32.toNat_inj, hwritten row g]
      split_ifs with hlast
      · obtain rfl : g = ⟨k, hk⟩ := Fin.ext hlast
        exact Nat.mod_eq_of_lt (hshaped row _)
      · rw [hindices row g (by omega)]
    · exact fun row g hg => absurd hg (Nat.not_lt_zero g.val)
  rw [unpack_indices, throw_if_of_not (not_not.mpr rfl), Except.ok_bind, hrun]
  congr 1
  ext row g
  rw [hindices row g g.isLt]

/-- The bytes of a row are in memory; what else is there is not said. -/
def InMemory (tags : Matrix (Fin rows) (Fin columns) UInt8) (row : Fin rows) (memory : Memory) : Prop :=
  ∀ c : Fin columns, memory (row * columns + c) = some (tags row c)

/-- The bytes of a row, and nothing else. -/
def row_memory (tags : Matrix (Fin rows) (Fin columns) UInt8) (row : Fin rows) : Memory := fun position =>
  if h : row * columns ≤ position ∧ position - row * columns < columns then
    some (tags row ⟨position - row * columns, h.2⟩)
  else none

theorem inMemory_row_memory (tags : Matrix (Fin rows) (Fin columns) UInt8) (row : Fin rows) :
    InMemory tags row (row_memory tags row) := by
  intro c
  have hplace : row.val * columns + c - row * columns = c := Nat.add_sub_cancel_left _ _
  rw [row_memory, dif_pos ⟨Nat.le_add_right _ _, hplace.trans_lt c.isLt⟩]
  simp only [hplace]

/-- The payload of a table: the bytes of its rows, one row after the other. -/
def payload (tags : Matrix (Fin rows) (Fin columns) UInt8) : Memory := fun position =>
  if h : position / columns < rows ∧ position % columns < columns then
    some (tags ⟨position / columns, h.1⟩ ⟨position % columns, h.2⟩)
  else none

theorem inMemory_payload (tags : Matrix (Fin rows) (Fin columns) UInt8) (row : Fin rows) :
    InMemory tags row (payload tags) := by
  intro c
  have hdiv : (row.val * columns + c) / columns = row := by
    rw [Nat.mul_comm, Nat.mul_add_div c.pos, Nat.div_eq_of_lt c.isLt, Nat.add_zero]
  have hmod : (row.val * columns + c) % columns = c := by
    rw [Nat.mul_comm, Nat.mul_add_mod, Nat.mod_eq_of_lt c.isLt]
  rw [payload, dif_pos ⟨hdiv.trans_lt row.isLt, hmod.trans_lt c.isLt⟩]
  simp only [hdiv, hmod]

/-- **A kernel reads a tag** from the bytes of its row. -/
theorem window_tag_ok (hbits : 9 ≤ bits ∧ bits ≤ 16) (htags : Holds bits shaped groups tags)
    (hmemory : InMemory tags row memory) (hgroup : group < groups) {position : Nat} {shift : UInt32}
    (hposition : position = row * row_bytes groups bits + group * bits / 8)
    (hshift : shift.toNat = group * bits % 8) :
    ∃ tag, window_tag memory bits position shift = some tag ∧
      tag.toNat = (shaped row ⟨group, hgroup⟩).toNat % 2 ^ bits := by
  obtain ⟨hsecond, hthird⟩ := byte_lt hbits.1 hgroup
  have hfirst : group * bits / 8 < row_bytes groups bits := by omega
  have hreaches : (16 < shift + UInt32.ofNat bits) ↔ 16 < group * bits % 8 + bits := by
    rw [UInt32.lt_iff_toNat_lt, UInt32.toNat_add, toNat_ofNat_of_lt (by omega), hshift,
      Nat.mod_eq_of_lt (by omega)]
    rfl
  have hshift' : shift = UInt32.ofNat (group * bits % 8) := by
    rw [← UInt32.toNat_inj, hshift, toNat_ofNat_of_lt (by omega)]
  have hmask : (1 : UInt32) <<< UInt32.ofNat bits - 1 = mask bits := kernel_mask_eq hbits.2
  have hlow := hmemory ⟨_, hfirst⟩
  have hhigh := hmemory ⟨_, hsecond⟩
  rw [← Nat.add_assoc] at hhigh
  rw [window_tag, hposition, hlow, Option.bind_eq_bind, Option.bind_some, hhigh, Option.bind_eq_bind,
    Option.bind_some, third_byte, hmask]
  by_cases hreach : 16 < group * bits % 8 + bits
  · have htop := hmemory ⟨_, hthird hreach⟩
    have hrow := tag_of_row hbits.2 htags row hgroup hfirst hsecond (tags row ⟨_, hthird hreach⟩)
      fun h => getD_row_words (hthird h)
    rw [← Nat.add_assoc] at htop
    rw [if_pos hreach] at hrow
    rw [if_pos (hreaches.mpr hreach), htop, hshift']
    exact ⟨_, rfl, hrow⟩
  · have hrow := tag_of_row hbits.2 htags row hgroup hfirst hsecond 0 fun h => absurd h hreach
    rw [if_neg hreach] at hrow
    rw [if_neg (hreaches.not.mpr hreach), hshift']
    exact ⟨_, rfl, hrow⟩

/-- A tag of 16 bits is a word of its own. -/
theorem word_tag_eq (tags : Memory) (index : Nat) : word_tag tags index = window_tag tags 16 (2 * index) 0 := by
  rw [word_tag, window_tag]
  refine Option.bind_congr fun first _ => Option.bind_congr fun second _ => ?_
  have hlt : (first.toUInt32 ||| second.toUInt32 <<< 8).toNat < 2 ^ 16 := by
    rw [UInt32.toNat_or, toNat_shiftLeft_byte second (by decide), UInt8.toNat_toUInt32]
    refine Nat.or_lt_two_pow (first.toNat_lt.trans (by decide)) ?_
    rw [show (8 : UInt32).toNat = 8 from rfl, Nat.shiftLeft_eq]
    have hsecond := second.toNat_lt
    omega
  have hmask : (1 : UInt32) <<< UInt32.ofNat 16 - 1 = mask 16 := kernel_mask_eq (Nat.le_refl 16)
  rw [third_byte, if_neg (by decide), hmask]
  refine congrArg some ?_
  rw [UInt32.shiftRight_zero, ← UInt32.toNat_inj, toNat_and_mask (Nat.le_refl 16), Nat.mod_eq_of_lt hlt]

/-- **The kernels for experts.** -/
theorem row_tag_ok (hbits : 9 ≤ bits ∧ bits ≤ 16) (htags : Holds bits shaped groups tags)
    (hmemory : InMemory tags row memory) (hgroup : group < groups) (aligned16 : Bool) :
    ∃ tag, row_tag aligned16 groups bits memory row group = some tag ∧
      tag.toNat = (shaped row ⟨group, hgroup⟩).toNat % 2 ^ bits := by
  rw [row_tag]
  split_ifs with hword
  · obtain ⟨rfl, -⟩ := hword
    have hposition : 2 * (row.val * groups + group) =
        row * row_bytes groups 16 + group * 16 / 8 := by
      rw [row_bytes, show (groups * 16 + 7) / 8 = 2 * groups by omega, Nat.mul_left_comm]
      omega
    rw [word_tag_eq, hposition]
    exact window_tag_ok hbits htags hmemory hgroup rfl (by rw [UInt32.toNat_zero]; omega)
  · refine window_tag_ok hbits htags hmemory hgroup ?_ ?_
    · rw [Nat.shiftRight_eq_div_pow]
    · rw [and_seven, toNat_ofNat_of_lt (by omega)]

/-- **The kernel for whole tables**, whose row width fits in an `int`. -/
theorem decode_tag_ok (hbits : 9 ≤ bits ∧ bits ≤ 16) (htags : Holds bits shaped groups tags)
    (hmemory : InMemory tags row memory) (hgroup : group < groups) (hint : groups * bits + 7 < 2 ^ 31)
    {index : UInt32} (hindex : index.toNat = row * groups + group) :
    ∃ tag, decode_tag groups bits memory index = some tag ∧
      tag.toNat = (shaped row ⟨group, hgroup⟩).toNat % 2 ^ bits := by
  have hmul : groups ≤ groups * bits := Nat.le_mul_of_pos_right groups (by omega)
  have hend : group * bits ≤ groups * bits := Nat.mul_le_mul_right bits hgroup.le
  have hgroups : (UInt32.ofNat groups).toNat = groups := toNat_ofNat_of_lt (by omega)
  have hcolumn : (index % UInt32.ofNat groups).toNat = group := by
    rw [UInt32.toNat_mod, hgroups, hindex, Nat.mul_comm, Nat.mul_add_mod, Nat.mod_eq_of_lt hgroup]
  have hrow : (index / UInt32.ofNat groups).toNat = row := by
    rw [UInt32.toNat_div, hgroups, hindex, Nat.mul_comm, Nat.mul_add_div (by omega),
      Nat.div_eq_of_lt hgroup, Nat.add_zero]
  have hbit : (index % UInt32.ofNat groups * UInt32.ofNat bits).toNat = group * bits := by
    rw [UInt32.toNat_mul, hcolumn, toNat_ofNat_of_lt (by omega), Nat.mod_eq_of_lt (by omega)]
  refine window_tag_ok hbits htags hmemory hgroup ?_ ?_
  · rw [hrow, UInt32.toNat_shiftRight, hbit]
    exact congrArg _ (Nat.shiftRight_eq_div_pow _ 3)
  · rw [UInt32.toNat_and, hbit]
    exact and_seven _

end Reading

/-- The tags of a table that fit in their width. -/
theorem reshape_lt {indices : List Nat} (hlt : ∀ index ∈ indices, index < 2 ^ bits)
    (row : Fin rows) (group : Fin groups) : (reshape indices rows groups row group).toNat < 2 ^ bits := by
  have hget : indices.getD (row * groups + group) 0 < 2 ^ bits := by
    rw [List.getD_eq_getElem?_getD]
    cases hindex : indices[row.val * groups + group.val]? with
    | none => exact Nat.two_pow_pos bits
    | some index => exact hlt index (List.mem_of_getElem? hindex)
  exact (Nat.mod_le _ _).trans_lt hget

/-- The bits of the other groups stay as they are. -/
def KeepsOthers (bits group : Nat) (tags tags' : Matrix (Fin rows) (Fin columns) UInt8) : Prop :=
  ∀ row (c : Fin columns) j, j < 8 → 8 * c + j < group * bits ∨ (group + 1) * bits ≤ 8 * c.val + j →
    (tags' row c).toNat.testBit j = (tags row c).toNat.testBit j

theorem Writes.keepsOthers {values : Fin rows → Nat} {group : Nat}
    {tags tags' : Matrix (Fin rows) (Fin columns) UInt8} (h : Writes bits group values tags tags')
    (hvalues : ∀ row, values row < 2 ^ bits) : KeepsOthers bits group tags tags' := by
  intro row c j hj hoff
  have hsucc : (group + 1) * bits = group * bits + bits := Nat.succ_mul _ _
  rw [h row c j hj]
  rcases hoff with hbefore | hpast
  · rw [decide_eq_false (by omega), Bool.false_and, Bool.or_false]
  · have hpow := Nat.pow_le_pow_right (show 2 > 0 by decide)
      (show bits ≤ 8 * c.val + j - group * bits by omega)
    rw [Nat.testBit_lt_two_pow ((hvalues row).trans_le hpow), Bool.and_false, Bool.or_false]

/-- The kernels read a tag of a table with as many groups in a row: the two for experts, which have
a fixed number of groups, and the one for whole tables, whose row width is an `int`. -/
structure KernelsRead (groups bits : Nat) (memory : Memory) (row group : Nat) (tag : UInt32) : Prop where
  any : ∀ aligned16, row_tag aligned16 groups bits memory row group = some tag
  gate_up : ∀ aligned16, groups = 2560 / 64 → gate_up_tag aligned16 bits memory row group = some tag
  down_reduce : ∀ aligned16, groups = 640 / 64 →
    down_reduce_tag aligned16 bits memory row group = some tag
  decode : ∀ index : UInt32, groups * bits + 7 < 2 ^ 31 → index.toNat = row * groups + group →
    decode_tag groups bits memory index = some tag

theorem Holds.kernelsRead {shaped : Matrix (Fin rows) (Fin groups) UInt32}
    {tags : Matrix (Fin rows) (Fin (row_bytes groups bits)) UInt8} (htags : Holds bits shaped groups tags)
    (hbits : 9 ≤ bits ∧ bits ≤ 16) (hshaped : ∀ row group, (shaped row group).toNat < 2 ^ bits)
    {row : Fin rows} {memory : Memory} (hmemory : InMemory tags row memory) (group : Fin groups) :
    KernelsRead groups bits memory row group (shaped row group) := by
  have hexact {found : Option UInt32}
      (h : ∃ tag, found = some tag ∧ tag.toNat = (shaped row group).toNat % 2 ^ bits) :
      found = some (shaped row group) := by
    obtain ⟨tag, rfl, htag⟩ := h
    rw [Nat.mod_eq_of_lt (hshaped row group)] at htag
    rw [UInt32.toNat_inj.mp htag]
  have hrow (aligned16 : Bool) := hexact (row_tag_ok hbits htags hmemory group.isLt aligned16)
  constructor
  case any => exact hrow
  case gate_up =>
    rintro aligned16 rfl
    exact hrow aligned16
  case down_reduce =>
    rintro aligned16 rfl
    exact hrow aligned16
  case decode =>
    intro index hint hindex
    exact hexact (decode_tag_ok hbits htags hmemory group.isLt hint hindex)

/-- **The tags come back**, from the builder and from every kernel. Packing stays within the row and
leaves the bits of the other groups alone, and a kernel needs nothing but the bytes of the row. -/
theorem qmeta_tags_round_trip {groups bits : Nat} (hgroups : 0 < groups)
    (hbits : bits = 9 ∨ bits = 13 ∨ bits = 16) {indices : List Nat} (hsize : groups ∣ indices.length)
    (hlt : ∀ index ∈ indices, index < 2 ^ bits) :
    (∀ (group : Fin groups)
        (tags : Matrix (Fin (indices.length / groups)) (Fin (row_bytes groups bits)) UInt8),
      ∃ tags', pack_group bits (reshape indices (indices.length / groups) groups) tags group = .ok tags' ∧
        KeepsOthers bits group tags tags') ∧
      ∃ tags, pack_indices indices groups bits = .ok tags ∧
        (∀ empty, unpack_indices empty tags bits =
          .ok (reshape indices (indices.length / groups) groups)) ∧
        (∀ row, InMemory tags row (payload tags) ∧ InMemory tags row (row_memory tags row)) ∧
        ∀ row memory, InMemory tags row memory → ∀ group : Fin groups,
          KernelsRead groups bits memory row group
            (reshape indices (indices.length / groups) groups row group) := by
  have hbits' : 9 ≤ bits ∧ bits ≤ 16 := by omega
  constructor
  · intro group tags
    obtain ⟨tags', hrun, hwrites⟩ := pack_group_ok hbits' _ group.isLt tags
    exact ⟨tags', hrun, hwrites.keepsOthers fun row => Nat.mod_lt _ (Nat.two_pow_pos bits)⟩
  · obtain ⟨tags, hrun, htags⟩ := pack_indices_ok hbits' hgroups hsize
    exact ⟨tags, hrun, unpack_indices_ok hbits' htags (reshape_lt hlt),
      fun row => ⟨inMemory_payload tags row, inMemory_row_memory tags row⟩,
      fun row memory hmemory group => htags.kernelsRead hbits' (reshape_lt hlt) hmemory group⟩

/-- Two rows of three tags of 13 bits; the second tag of a row reaches into a third byte. -/
theorem qmeta_tags_round_trip_three :
    ∃ tags, pack_indices [8191, 4660, 1, 0, 8190, 77] 3 13 = .ok tags ∧
      (∀ empty, unpack_indices empty tags 13 = .ok (reshape [8191, 4660, 1, 0, 8190, 77] 2 3)) ∧
      ∀ row, ∀ group : Fin 3, KernelsRead 3 13 (row_memory tags row) row group
        (reshape [8191, 4660, 1, 0, 8190, 77] 2 3 row group) := by
  obtain ⟨-, tags, hrun, hunpack, hmemory, hread⟩ := @qmeta_tags_round_trip 3 13 (by decide)
    (by decide) [8191, 4660, 1, 0, 8190, 77] (by decide) (by decide)
  exact ⟨tags, hrun, hunpack, fun row group => hread row _ (hmemory row).2 group⟩

end Qmeta

end Qwen38
