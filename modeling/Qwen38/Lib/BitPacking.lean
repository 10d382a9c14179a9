import Mathlib.Data.Nat.Digits.Defs
import Mathlib.Data.Nat.Bitwise

/-!
# Packed codes

A list of codes of one width, packed into words with the lowest bit first: code `i` lies at the
bits from `i * bits` on of the words in a row (`BitPacking.Packed`), so that it may straddle two
of them. Reading it back takes one shift, a second one if it straddles, and a mask
(`BitPacking.window`, `BitPacking.Packed.window_eq`).
-/

namespace BitPacking

/-- A bit of the words in a row. -/
def streamBit (w : Nat) (words : List Nat) (n : Nat) : Bool := (words.getD (n / w) 0).testBit (n % w)

/-- Codes of `bits` bits in words of `w`, one after the other; what is behind them is not said. -/
structure Packed (w bits : Nat) (codes words : List Nat) : Prop where
  word_lt : ∀ word ∈ words, word < 2 ^ w
  code_lt : ∀ code ∈ codes, code < 2 ^ bits
  length_le : codes.length * bits ≤ words.length * w
  bit : ∀ i (hi : i < codes.length), ∀ j < bits,
    streamBit w words (i * bits + j) = codes[i].testBit j

/-- The bits from `shift` on of a word, with those of the next one above them. -/
def window (w bits shift word next : Nat) : Nat :=
  (word >>> shift ||| if w < shift + bits then next <<< (w - shift) else 0) % 2 ^ bits

variable {w bits shift word next i j : Nat} {codes words : List Nat}

/-! ### Reading a code -/

theorem testBit_window (hshift : shift < w) (hword : word < 2 ^ w) (hj : j < bits) :
    (window w bits shift word next).testBit j =
      if shift + j < w then word.testBit (shift + j) else next.testBit (shift + j - w) := by
  rw [window, Nat.testBit_mod_two_pow, decide_eq_true hj, Bool.true_and, Nat.testBit_or,
    Nat.testBit_shiftRight]
  split_ifs with hstraddle hlow hlow
  · rw [Nat.testBit_shiftLeft, decide_eq_false (by omega), Bool.false_and, Bool.or_false]
  · have hzero : word.testBit (shift + j) = false :=
      Nat.testBit_lt_two_pow (hword.trans_le (Nat.pow_le_pow_right (by decide) (by omega)))
    rw [hzero, Bool.false_or, Nat.testBit_shiftLeft, decide_eq_true (by omega), Bool.true_and]
    congr 1
    omega
  · rw [Nat.zero_testBit, Bool.or_false]
  · omega

/-- Two numbers below a power of two that agree on the bits below it. -/
theorem eq_of_testBit_lt {m n : Nat} (hm : m < 2 ^ bits) (hn : n < 2 ^ bits)
    (h : ∀ j < bits, m.testBit j = n.testBit j) : m = n := by
  refine Nat.eq_of_testBit_eq fun j => ?_
  rcases Nat.lt_or_ge j bits with hj | hj
  · exact h j hj
  · have hpow := Nat.pow_le_pow_right (show 2 > 0 by decide) hj
    rw [Nat.testBit_lt_two_pow (hm.trans_le hpow), Nat.testBit_lt_two_pow (hn.trans_le hpow)]

/-- Where the words of a code lie: within the words. -/
theorem Packed.word_lt_length (h : Packed w bits codes words) (hbits : 0 < bits)
    (hi : i < codes.length) : i * bits / w < words.length := by
  refine Nat.div_lt_of_lt_mul ?_
  calc i * bits < codes.length * bits := Nat.mul_lt_mul_of_pos_right hi hbits
    _ ≤ words.length * w := h.length_le
    _ = w * words.length := Nat.mul_comm _ _

/-- Each word that a code reaches into is there. -/
theorem Packed.add_lt_length (h : Packed w bits codes words) (hi : i < codes.length) {k : Nat}
    (hreach : k * w < i * bits % w + bits) : i * bits / w + k < words.length := by
  have hend : i * bits + bits ≤ words.length * w :=
    calc i * bits + bits = (i + 1) * bits := (Nat.succ_mul i bits).symm
      _ ≤ codes.length * bits := Nat.mul_le_mul_right bits hi
      _ ≤ words.length * w := h.length_le
  have hdiv := Nat.div_add_mod (i * bits) w
  have hlt : w * (i * bits / w + k) < w * words.length := by
    rw [Nat.mul_add, Nat.mul_comm w k, Nat.mul_comm w words.length]
    omega
  exact Nat.lt_of_mul_lt_mul_left hlt

/-- Where a code straddles two words, the second one is there too. -/
theorem Packed.next_lt_length (h : Packed w bits codes words) (hi : i < codes.length)
    (hstraddle : w < i * bits % w + bits) : i * bits / w + 1 < words.length :=
  h.add_lt_length hi (by rwa [Nat.one_mul])

/-- A number with the bits of a code, wherever they have been read, is the code. -/
theorem Packed.eq_of_testBit (h : Packed w bits codes words) (hw : 0 < w) (hi : i < codes.length)
    {n : Nat} (hn : n < 2 ^ bits)
    (hbit : ∀ j < bits, n.testBit j =
      (words.getD (i * bits / w + (i * bits % w + j) / w) 0).testBit ((i * bits % w + j) % w)) :
    n = codes[i] := by
  refine eq_of_testBit_lt hn (h.code_lt _ (List.getElem_mem hi)) fun j hj => ?_
  have hdiv := Nat.div_add_mod (i * bits) w
  have hplace : i * bits + j = i * bits % w + j + w * (i * bits / w) := by omega
  rw [hbit j hj, ← h.bit i hi j hj, streamBit, hplace, Nat.add_mul_div_left _ _ hw,
    Nat.add_mul_mod_self_left, Nat.add_comm ((i * bits % w + j) / w)]

/-- **A code is read back** from the word it begins in and, where it straddles, the next one. -/
theorem Packed.window_eq (h : Packed w bits codes words) (hle : bits ≤ w) (hw : 0 < w)
    (hi : i < codes.length) (hword : words[i * bits / w]? = some word)
    (hnext : w < i * bits % w + bits → words[i * bits / w + 1]? = some next) :
    window w bits (i * bits % w) word next = codes[i] := by
  have hshift : i * bits % w < w := Nat.mod_lt _ hw
  refine h.eq_of_testBit hw hi (Nat.mod_lt _ (Nat.two_pow_pos bits)) fun j hj => ?_
  rw [testBit_window hshift (h.word_lt word (List.mem_of_getElem? hword)) hj]
  split_ifs with hlow
  · rw [Nat.div_eq_of_lt hlow, Nat.mod_eq_of_lt hlow, Nat.add_zero, List.getD_eq_getElem?_getD, hword,
      Option.getD_some]
  · have hone : (i * bits % w + j) / w = 1 := Nat.div_eq_of_lt_le (by omega) (by omega)
    have hrest : (i * bits % w + j) % w = i * bits % w + j - w := by
      rw [Nat.mod_eq_sub_mod (by omega), Nat.mod_eq_of_lt (by omega)]
    rw [hone, hrest, List.getD_eq_getElem?_getD, hnext (by omega), Option.getD_some]

/-- **No code straddles** where the width of a word is a multiple of that of a code: word `i / n`
holds code `i`, for `n` codes a word. -/
theorem Packed.aligned_eq (h : Packed w bits codes words) (hw : 0 < w) (hdvd : bits ∣ w)
    (hi : i < codes.length) (hword : words[i / (w / bits)]? = some word) :
    (word >>> (i % (w / bits) * bits)) % 2 ^ bits = codes[i] := by
  have hbits : 0 < bits := Nat.pos_of_dvd_of_pos hdvd hw
  have hwidth : w / bits * bits = w := Nat.div_mul_cancel hdvd
  have hplace : i * bits / w = i / (w / bits) := by
    conv_lhs => rw [← hwidth]
    exact Nat.mul_div_mul_right i (w / bits) hbits
  have hshift : i * bits % w = i % (w / bits) * bits := by
    conv_lhs => rw [← hwidth]
    exact Nat.mul_mod_mul_right bits i (w / bits)
  have hfits : i % (w / bits) * bits + bits ≤ w := by
    have hlt : i % (w / bits) < w / bits := Nat.mod_lt i (Nat.div_pos (Nat.le_of_dvd hw hdvd) hbits)
    calc i % (w / bits) * bits + bits = (i % (w / bits) + 1) * bits := (Nat.succ_mul _ bits).symm
      _ ≤ w / bits * bits := Nat.mul_le_mul_right bits hlt
      _ = w := hwidth
  have hread : window w bits (i * bits % w) word 0 = codes[i] :=
    h.window_eq (Nat.le_of_dvd hw hdvd) hw hi (by rwa [hplace]) (by rw [hshift]; omega)
  rwa [window, hshift, if_neg (Nat.not_lt.mpr hfits), Nat.or_zero] at hread

/-! ### Packing -/

/-- Codes in so many words: the codes are the digits of the number whose digits the words are. -/
def pack (w bits count : Nat) (codes : List Nat) : List Nat :=
  (List.range count).map fun k => Nat.ofDigits (2 ^ bits) codes / 2 ^ (w * k) % 2 ^ w

@[simp] theorem length_pack (w bits count : Nat) (codes : List Nat) :
    (pack w bits count codes).length = count := by
  rw [pack, List.length_map, List.length_range]

/-- The bits of the number whose digits are the codes. -/
theorem testBit_ofDigits (hcodes : ∀ code ∈ codes, code < 2 ^ bits) (hi : i < codes.length)
    (hj : j < bits) : (Nat.ofDigits (2 ^ bits) codes).testBit (i * bits + j) = codes[i].testBit j := by
  have hdrop : Nat.ofDigits (2 ^ bits) codes / 2 ^ (i * bits) =
      codes[i] + 2 ^ bits * Nat.ofDigits (2 ^ bits) (codes.drop (i + 1)) := by
    rw [Nat.mul_comm i, Nat.pow_mul, Nat.ofDigits_div_pow_eq_ofDigits_drop i (Nat.two_pow_pos bits)
      codes hcodes, List.drop_eq_getElem_cons hi, Nat.ofDigits_cons]
  rw [Nat.add_comm, ← Nat.testBit_div_two_pow, hdrop, Nat.add_comm,
    Nat.testBit_two_pow_mul_add _ (hcodes _ (List.getElem_mem hi)), if_pos hj]

/-- **Codes can be packed** into any number of words that holds them. -/
theorem packed_pack {count : Nat} (hw : 0 < w) (hcodes : ∀ code ∈ codes, code < 2 ^ bits)
    (hcount : codes.length * bits ≤ count * w) : Packed w bits codes (pack w bits count codes) where
  word_lt := by
    intro word hword
    obtain ⟨k, -, rfl⟩ := List.mem_map.mp hword
    exact Nat.mod_lt _ (Nat.two_pow_pos w)
  code_lt := hcodes
  length_le := by rwa [length_pack]
  bit := by
    intro i hi j hj
    have hend : i * bits + j < count * w :=
      calc i * bits + j < i * bits + bits := Nat.add_lt_add_left hj _
        _ = (i + 1) * bits := (Nat.succ_mul i bits).symm
        _ ≤ codes.length * bits := Nat.mul_le_mul_right bits hi
        _ ≤ count * w := hcount
    have hk : (i * bits + j) / w < count := Nat.div_lt_of_lt_mul (hend.trans_eq (Nat.mul_comm _ _))
    rw [streamBit, List.getD_eq_getElem?_getD, pack, List.getElem?_map, List.getElem?_range hk,
      Option.map_some, Option.getD_some, Nat.testBit_mod_two_pow,
      decide_eq_true (Nat.mod_lt _ hw), Bool.true_and, Nat.testBit_div_two_pow, Nat.mod_add_div,
      testBit_ofDigits hcodes hi hj]

/-- **Words hold codes** of any width: those whose digits are the number with the words as
digits. -/
theorem packed_unpack {count : Nat} (hw : 0 < w) (hwords : ∀ word ∈ words, word < 2 ^ w)
    (hcount : count * bits ≤ words.length * w) :
    Packed w bits (pack bits w count words) words where
  word_lt := hwords
  code_lt := by
    intro code hcode
    obtain ⟨k, -, rfl⟩ := List.mem_map.mp hcode
    exact Nat.mod_lt _ (Nat.two_pow_pos bits)
  length_le := by rwa [length_pack]
  bit := by
    intro i hi j hj
    rw [length_pack] at hi
    have hend : i * bits + j < words.length * w :=
      calc i * bits + j < i * bits + bits := Nat.add_lt_add_left hj _
        _ = (i + 1) * bits := (Nat.succ_mul i bits).symm
        _ ≤ count * bits := Nat.mul_le_mul_right bits hi
        _ ≤ words.length * w := hcount
    have hplace : (i * bits + j) / w < words.length :=
      Nat.div_lt_of_lt_mul (hend.trans_eq (Nat.mul_comm _ _))
    have hbit := testBit_ofDigits hwords hplace (Nat.mod_lt (i * bits + j) hw)
    rw [Nat.div_add_mod' (i * bits + j) w] at hbit
    simp only [pack, List.getElem_map, List.getElem_range]
    rw [streamBit, List.getD_eq_getElem _ _ hplace, ← hbit, Nat.testBit_mod_two_pow,
      decide_eq_true hj, Bool.true_and, Nat.testBit_div_two_pow, Nat.mul_comm bits i, Nat.add_comm]

end BitPacking
