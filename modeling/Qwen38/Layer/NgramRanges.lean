import Qwen38.Layer.Ngram
import Mathlib.NumberTheory.Bertrand
import Mathlib.Data.UInt
import Mathlib.Algebra.Order.BigOperators.Group.Finset

/-!
# The heads of the n-gram table

`NgramHash`, the constructor: every head gets a prime number of rows, the next one after the
base for the first head and so on, and the heads lie one after the other in the table. A row is a
remainder by the head's prime, behind the heads before it.

The primes are searched from the base on, and the search may wrap around at the end of the 64 bits
when the base is there; the primes of two heads differ all the same, because a search from below
half of the 64 bits ends above where it began (`NgramConfig.Fits.head_size_lt_succ`).
-/

namespace Qwen38

/-! ### The search for primes -/

/-- The loop over the odd divisors; the fuel is enough for all of them. -/
def divides_none : Nat → Nat → Nat → Bool
  | 0, _, _ => true
  | fuel + 1, divisor, value =>
    if divisor ≤ value / divisor then
      if value % divisor = 0 then false else divides_none fuel (divisor + 2) value
    else true

/-- `is_prime`. -/
def is_prime (value : Nat) : Bool :=
  if value < 2 then false
  else if value % 2 = 0 then value == 2
  else divides_none value 3 value

/-- `splitmix64`. -/
def splitmix64 (value : UInt64) : UInt64 :=
  let value := value + 0x9E3779B97F4A7C15
  let value := (value ^^^ (value >>> 30)) * 0xBF58476D1CE4E5B9
  let value := (value ^^^ (value >>> 27)) * 0x94D049BB133111EB
  value ^^^ (value >>> 31)

/-- The `do` loop: at most all values are tried. -/
def next_prime : Nat → UInt64 → UInt64
  | 0, value => value
  | fuel + 1, value => if is_prime (value + 1).toNat then value + 1 else next_prime fuel (value + 1)

/-- `nth_prime_after`. -/
def nth_prime_after (start : UInt64) : Nat → UInt64
  | 0 => start
  | count + 1 => next_prime (2 ^ 64) (nth_prime_after start count)

/-- The loop finds the least divisor. -/
theorem divides_none_iff {fuel divisor value : Nat} (hdivisor : 3 ≤ divisor) (hfuel : value < divisor + fuel) :
    divides_none fuel divisor value = true ↔ Nat.minFacAux value divisor = value := by
  induction fuel generalizing divisor with
  | zero =>
    have hlt : value < divisor * divisor := by
      have := Nat.le_mul_self divisor
      omega
    rw [Nat.minFacAux, if_pos hlt]
    exact iff_of_true rfl rfl
  | succ fuel ih =>
    have hsquare : divisor ≤ value / divisor ↔ ¬value < divisor * divisor := by
      rw [Nat.le_div_iff_mul_le (by omega), Nat.not_lt]
    rw [divides_none, Nat.minFacAux]
    by_cases hle : divisor ≤ value / divisor
    · have hbelow : divisor ≠ value := by
        rintro rfl
        have := hsquare.mp hle
        have := Nat.mul_lt_mul_of_pos_right (show 1 < divisor by omega) (show 0 < divisor by omega)
        omega
      rw [if_pos hle, if_neg (hsquare.mp hle)]
      by_cases hdvd : divisor ∣ value
      · rw [if_pos (Nat.mod_eq_zero_of_dvd hdvd), if_pos hdvd]
        exact iff_of_false Bool.false_ne_true hbelow
      · rw [if_neg (fun h => hdvd (Nat.dvd_of_mod_eq_zero h)), if_neg hdvd]
        exact ih (by omega) (by omega)
    · rw [if_neg hle, if_pos (by_contra fun h => hle (hsquare.mpr h))]
      exact iff_of_true rfl rfl

/-- **The test** is exact. -/
theorem is_prime_iff (value : Nat) : is_prime value = true ↔ value.Prime := by
  rw [is_prime, Nat.prime_def_minFac, Nat.minFac_eq]
  rcases Nat.lt_or_ge value 2 with hsmall | hlarge
  · rw [if_pos hsmall]
    exact iff_of_false Bool.false_ne_true fun h => absurd h.1 (by omega)
  · rw [if_neg (Nat.not_lt.mpr hlarge)]
    rcases Nat.mod_two_eq_zero_or_one value with heven | hodd
    · rw [if_pos heven, if_pos (Nat.dvd_of_mod_eq_zero heven), beq_iff_eq, eq_comm]
      exact ⟨fun h => ⟨hlarge, h⟩, fun h => h.2⟩
    · have hndvd : ¬2 ∣ value := by omega
      rw [if_neg (by omega), if_neg hndvd, divides_none_iff le_rfl (by omega)]
      exact ⟨fun h => ⟨hlarge, h⟩, fun h => h.2⟩

/-- **The search**: where there is a prime ahead, it ends at one, not further on. The loop of the
source has no bound; here the distance to a prime is the fuel. -/
theorem next_prime_spec {fuel distance : Nat} {value : UInt64} (hpos : 0 < distance)
    (hfuel : distance ≤ fuel) (hprime : (value + UInt64.ofNat distance).toNat.Prime) :
    (next_prime fuel value).toNat.Prime ∧
      ∃ passes, 0 < passes ∧ passes ≤ distance ∧ next_prime fuel value = value + UInt64.ofNat passes := by
  induction fuel generalizing distance value with
  | zero => omega
  | succ fuel ih =>
    rw [next_prime]
    split_ifs with h
    · exact ⟨(is_prime_iff _).mp h, 1, Nat.one_pos, hpos, rfl⟩
    · have hone : distance ≠ 1 := by
        rintro rfl
        exact h ((is_prime_iff _).mpr hprime)
      have hshift (n : Nat) (hn : 0 < n) :
          value + 1 + UInt64.ofNat (n - 1) = value + UInt64.ofNat n := by
        obtain ⟨m, rfl⟩ := Nat.exists_eq_succ_of_ne_zero hn.ne'
        rw [Nat.succ_sub_one, Nat.succ_eq_add_one, UInt64.ofNat_add, UInt64.add_assoc,
          UInt64.add_comm 1]
        rfl
      obtain ⟨hfound, passes, hpasses, hle, heq⟩ := @ih (distance - 1) (value + 1) (by omega) (by omega)
        (by rwa [hshift distance hpos])
      refine ⟨hfound, passes + 1, Nat.succ_pos _, by omega, ?_⟩
      rw [heq, ← hshift (passes + 1) (Nat.succ_pos _), Nat.add_sub_cancel]

/-- There is always a prime ahead, as the values wrap around. -/
theorem prime_next_prime (value : UInt64) : (next_prime (2 ^ 64) value).toNat.Prime := by
  have hlt := value.toNat_lt
  -- The distance to the prime 2.
  have htwo : ∃ distance, 0 < distance ∧ distance ≤ 2 ^ 64 ∧
      (value.toNat + distance) % 2 ^ 64 = 2 := by
    rcases Nat.lt_or_ge value.toNat 2 with hsmall | hlarge
    · exact ⟨2 - value.toNat, by omega, by omega, by omega⟩
    · exact ⟨2 ^ 64 + 2 - value.toNat, by omega, by omega, by omega⟩
  obtain ⟨distance, hpos, hle, hmod⟩ := htwo
  refine (next_prime_spec hpos hle ?_).1
  rw [UInt64.toNat_add, UInt64.toNat_ofNat', Nat.add_mod_mod, hmod]
  exact Nat.prime_two

/-- **From below half of the 64 bits** the search does not wrap around, since there is a prime
between a number and its double. -/
theorem lt_next_prime {value : UInt64} (hpos : 0 < value.toNat) (hhalf : value.toNat < 2 ^ 63) :
    value.toNat < (next_prime (2 ^ 64) value).toNat := by
  obtain ⟨p, hp, hlt, hle⟩ := Nat.exists_prime_lt_and_le_two_mul value.toNat hpos.ne'
  have hadd (n : Nat) (hn : n ≤ p - value.toNat) :
      (value + UInt64.ofNat n).toNat = value.toNat + n := by
    rw [UInt64.toNat_add, UInt64.toNat_ofNat', Nat.add_mod_mod, Nat.mod_eq_of_lt (by omega)]
  have hprime : (value + UInt64.ofNat (p - value.toNat)).toNat.Prime := by
    rwa [hadd _ le_rfl, Nat.add_sub_cancel' hlt.le]
  obtain ⟨-, passes, hpasses, hpasses_le, heq⟩ :=
    @next_prime_spec (2 ^ 64) _ value (by omega) (by omega) hprime
  rw [heq, hadd passes hpasses_le]
  omega

/-! ### Ranges one after the other -/

section Ranges

variable {size : Nat → Nat} {n row i j : Nat}

/-- Ranges that follow one another leave nothing out. -/
theorem exists_mem_range (h : row < ∑ k ∈ Finset.range n, size k) :
    ∃ i < n, ∑ k ∈ Finset.range i, size k ≤ row ∧ row < ∑ k ∈ Finset.range (i + 1), size k := by
  induction n with
  | zero => simp at h
  | succ n ih =>
    rcases Nat.lt_or_ge row (∑ k ∈ Finset.range n, size k) with hbefore | hlast
    · obtain ⟨i, hi, hmem⟩ := ih hbefore
      exact ⟨i, by omega, hmem⟩
    · exact ⟨n, n.lt_succ_self, hlast, h⟩

theorem sum_range_mono (h : i ≤ j) :
    ∑ k ∈ Finset.range i, size k ≤ ∑ k ∈ Finset.range j, size k :=
  Finset.sum_le_sum_of_subset (Finset.range_mono h)

/-- A row is in one of the ranges only. -/
theorem mem_range_unique
    (hi : ∑ k ∈ Finset.range i, size k ≤ row ∧ row < ∑ k ∈ Finset.range (i + 1), size k)
    (hj : ∑ k ∈ Finset.range j, size k ≤ row ∧ row < ∑ k ∈ Finset.range (j + 1), size k) :
    i = j := by
  rcases Nat.lt_trichotomy i j with hlt | heq | hgt
  · have := @sum_range_mono size (i + 1) j hlt
    omega
  · exact heq
  · have := @sum_range_mono size (j + 1) i hgt
    omega

end Ranges

/-! ### What the hash is made of -/

/-- What `NgramHash` takes from the configuration. -/
structure NgramConfig where
  vocabulary_size : UInt64
  ngram_vocabulary_base : UInt64
  ngram_vocabulary_divisor : UInt64
  ngram_seed : UInt64
  end_of_sequence_token : UInt32

namespace NgramConfig

variable (config : NgramConfig)

/-- `half_bound`. -/
def half_bound : UInt64 := max 1 ((((1 : UInt64) <<< 63) - 1) / max config.vocabulary_size 1 / 2)

/-- A multiplier, before it is taken to be signed. -/
def multiplier (index : Nat) : UInt64 :=
  let value := config.ngram_seed + 0x9E3779B97F4A7C15 * (UInt64.ofNat index + 1)
  2 * (splitmix64 value % config.half_bound) + 1

/-- The rows of a head. -/
def head_size (head : Nat) : UInt64 :=
  nth_prime_after (config.ngram_vocabulary_base - 1) (head + 1)

/-- The `total` before a head. -/
def total_before : Nat → UInt64
  | 0 => 0
  | head + 1 => total_before head + config.head_size head

/-- `total_rows_`: the rows of all heads, up to a multiple of the divisor. -/
def total_rows : UInt64 :=
  let divisor := config.ngram_vocabulary_divisor
  (config.total_before 16 + divisor - 1) / divisor * divisor

/-- The constructor of `NgramHash`. -/
def hash : NgramHash where
  eos_ := config.end_of_sequence_token
  multipliers_ index := (config.multiplier index).toBitVec
  vocabulary_ head := (config.head_size head).toBitVec.toInt
  offsets_ head := (config.total_before head).toBitVec.toInt

/-- The rows of the heads before one, with no bound on the numbers. -/
def rows_before (head : Nat) : Nat := ∑ k ∈ Finset.range head, (config.head_size k).toNat

/-- A configuration of which the totals fit in `std::int64_t`. -/
structure Fits : Prop where
  vocabulary_size_pos : 1 ≤ config.vocabulary_size.toNat
  divisor_pos : 1 ≤ config.ngram_vocabulary_divisor.toNat
  eos_lt : config.end_of_sequence_token.toNat < config.vocabulary_size.toNat
  rows_lt : config.rows_before 16 < 2 ^ 63
  total_rows_lt :
    (config.rows_before 16 + config.ngram_vocabulary_divisor.toNat - 1) /
      config.ngram_vocabulary_divisor.toNat * config.ngram_vocabulary_divisor.toNat < 2 ^ 63

variable {config} {head : Nat}

/-! ### The heads -/

theorem prime_head_size : (config.head_size head).toNat.Prime := prime_next_prime _

theorem rows_before_succ :
    config.rows_before (head + 1) = config.rows_before head + (config.head_size head).toNat :=
  Finset.sum_range_succ _ head

namespace Fits

variable (h : config.Fits)
include h

theorem rows_before_le (hhead : head ≤ 16) : config.rows_before head < 2 ^ 63 :=
  (sum_range_mono hhead).trans_lt h.rows_lt

theorem head_size_lt (hhead : head < 16) : (config.head_size head).toNat < 2 ^ 63 := by
  have hlt := h.rows_before_le (show head + 1 ≤ 16 from hhead)
  rw [rows_before_succ] at hlt
  omega

/-- The running total does not wrap around. -/
theorem toNat_total_before (hhead : head ≤ 16) :
    (config.total_before head).toNat = config.rows_before head := by
  induction head with
  | zero => rfl
  | succ head ih =>
    have hlt := h.rows_before_le hhead
    rw [rows_before_succ] at hlt ⊢
    rw [total_before, UInt64.toNat_add, ih (by omega), Nat.mod_eq_of_lt (by omega)]

/-- The search for a head ends above the one before. -/
theorem head_size_lt_succ (hhead : head < 16) :
    (config.head_size head).toNat < (config.head_size (head + 1)).toNat :=
  lt_next_prime prime_head_size.pos (h.head_size_lt hhead)

/-- The heads grow. -/
theorem head_size_lt_of_lt {i j : Nat} (hlt : i < j) (hj : j < 16) :
    (config.head_size i).toNat < (config.head_size j).toNat := by
  induction j, hlt using Nat.le_induction with
  | base => exact h.head_size_lt_succ (by omega)
  | succ j _ ih => exact (ih (by omega)).trans (h.head_size_lt_succ (by omega))

theorem vocabulary_eq (head : Fin 16) :
    config.hash.vocabulary_ head = (config.head_size head).toNat := by
  have hlt := h.head_size_lt head.isLt
  exact BitVec.toInt_eq_toNat_of_lt (by rw [UInt64.toNat_toBitVec]; omega)

theorem offsets_eq (head : Fin 16) : config.hash.offsets_ head = config.rows_before head := by
  have hlt := h.rows_before_le head.isLt.le
  have heq := h.toNat_total_before head.isLt.le
  rw [← heq]
  exact BitVec.toInt_eq_toNat_of_lt (by rw [UInt64.toNat_toBitVec]; omega)

theorem vocabulary_injective : Function.Injective config.hash.vocabulary_ := by
  intro i j hij
  rw [h.vocabulary_eq, h.vocabulary_eq, Int.natCast_inj] at hij
  rcases Nat.lt_trichotomy i j with hlt | heq | hgt
  · exact absurd hij (h.head_size_lt_of_lt hlt j.isLt).ne
  · exact Fin.ext heq
  · exact absurd hij (h.head_size_lt_of_lt hgt i.isLt).ne'

/-- The offset of a head is where the head before it ends. -/
theorem offsets_succ (head : Fin 15) : config.hash.offsets_ head.succ =
    config.hash.offsets_ head.castSucc + config.hash.vocabulary_ head.castSucc := by
  rw [h.offsets_eq, h.offsets_eq, h.vocabulary_eq, Fin.val_succ, Fin.val_castSucc, rows_before_succ,
    Nat.cast_add]

/-- Every row is one of exactly one head. -/
theorem existsUnique_head {row : Nat} (hrow : row < config.rows_before 16) :
    ∃! head : Fin 16, config.hash.offsets_ head ≤ row ∧
      row < config.hash.offsets_ head + config.hash.vocabulary_ head := by
  have hmem (head : Fin 16) : (config.hash.offsets_ head ≤ row ∧
      row < config.hash.offsets_ head + config.hash.vocabulary_ head) ↔
      config.rows_before head ≤ row ∧ row < config.rows_before (head + 1) := by
    rw [h.offsets_eq, h.vocabulary_eq, rows_before_succ]
    omega
  simp only [hmem]
  obtain ⟨head, hlt, hrange⟩ := exists_mem_range hrow
  exact ⟨⟨head, hlt⟩, hrange, fun other hother => Fin.ext (mem_range_unique hother hrange)⟩

/-! ### The padding -/

/-- The total is rounded up with no wrap around. -/
theorem toNat_total_rows : config.total_rows.toNat =
    (config.rows_before 16 + config.ngram_vocabulary_divisor.toNat - 1) /
      config.ngram_vocabulary_divisor.toNat * config.ngram_vocabulary_divisor.toNat := by
  have hpos := h.divisor_pos
  have hrows := h.rows_lt
  have htotal := h.total_rows_lt
  have hprime := (@prime_head_size config 0).pos
  have hfirst : (config.head_size 0).toNat ≤ config.rows_before 16 := by
    have hone : config.rows_before 1 = (config.head_size 0).toNat := by
      rw [rows_before_succ, rows_before, Finset.sum_range_zero, Nat.zero_add]
    exact hone.symm.trans_le (sum_range_mono (by omega))
  have hdivisor : config.ngram_vocabulary_divisor.toNat < 2 ^ 63 :=
    (Nat.le_mul_of_pos_left _ (Nat.div_pos (by omega) hpos)).trans_lt htotal
  have hsum : (config.total_before 16 + config.ngram_vocabulary_divisor).toNat =
      config.rows_before 16 + config.ngram_vocabulary_divisor.toNat := by
    rw [UInt64.toNat_add, h.toNat_total_before le_rfl, Nat.mod_eq_of_lt (by omega)]
  have hone : (1 : UInt64).toNat = 1 := rfl
  rw [total_rows, UInt64.toNat_mul, UInt64.toNat_div, UInt64.toNat_sub_of_le, hsum, hone,
    Nat.mod_eq_of_lt (by omega)]
  rw [UInt64.le_iff_toNat_le, hsum, hone]
  omega

/-- Rounding up to a multiple. -/
theorem total_rows_bounds : config.ngram_vocabulary_divisor.toNat ∣ config.total_rows.toNat ∧
    config.rows_before 16 ≤ config.total_rows.toNat ∧
    config.total_rows.toNat < config.rows_before 16 + config.ngram_vocabulary_divisor.toNat := by
  have hpos := h.divisor_pos
  rw [h.toNat_total_rows]
  generalize config.ngram_vocabulary_divisor.toNat = divisor at hpos ⊢
  have hdecomposed := Nat.div_add_mod (config.rows_before 16 + divisor - 1) divisor
  have hmod := Nat.mod_lt (config.rows_before 16 + divisor - 1) hpos
  rw [Nat.mul_comm divisor] at hdecomposed
  exact ⟨Nat.dvd_mul_left _ _, by omega, by omega⟩

/-! ### The products -/

omit h in
theorem toNat_max (a b : UInt64) : (max a b).toNat = max a.toNat b.toNat := by
  change (if a ≤ b then b else a).toNat = if a.toNat ≤ b.toNat then b.toNat else a.toNat
  simp only [UInt64.le_iff_toNat_le, apply_ite UInt64.toNat]

/-- A multiplier fits in what is left of 63 bits by a token. -/
theorem multiplier_le (index : Nat) : (config.multiplier index).toNat = 1 ∨
    (config.multiplier index).toNat ≤ (2 ^ 63 - 1) / config.vocabulary_size.toNat := by
  have hpos := h.vocabulary_size_pos
  have hone : (1 : UInt64).toNat = 1 := rfl
  have htwo : (2 : UInt64).toNat = 2 := rfl
  have hmaximum : (((1 : UInt64) <<< 63) - 1).toNat = 2 ^ 63 - 1 := by decide
  have hhalf : config.half_bound.toNat = max 1 ((2 ^ 63 - 1) / config.vocabulary_size.toNat / 2) := by
    rw [half_bound, toNat_max, UInt64.toNat_div, UInt64.toNat_div, toNat_max, hone,
      Nat.max_eq_left hpos, hmaximum, htwo]
  have hquotient := Nat.div_le_self (2 ^ 63 - 1) config.vocabulary_size.toNat
  generalize (2 ^ 63 - 1) / config.vocabulary_size.toNat = quotient at hhalf hquotient ⊢
  have hmod := Nat.mod_lt (splitmix64
    (config.ngram_seed + 0x9E3779B97F4A7C15 * (UInt64.ofNat index + 1))).toNat
    (show 0 < config.half_bound.toNat by omega)
  unfold multiplier
  rw [UInt64.toNat_add, UInt64.toNat_mul, UInt64.toNat_mod, hone, htwo]
  omega

/-- The product of a token of the vocabulary and a multiplier is exact. -/
theorem toNat_term {token : UInt32} (htoken : token.toNat < config.vocabulary_size.toNat)
    (index : Fin 3) :
    (config.hash.term token index).toNat = token.toNat * (config.hash.multipliers_ index).toNat ∧
      token.toNat * (config.hash.multipliers_ index).toNat < 2 ^ 63 := by
  have hlt : token.toNat * (config.hash.multipliers_ index).toNat < 2 ^ 63 := by
    change token.toNat * (config.multiplier index).toNat < 2 ^ 63
    rcases h.multiplier_le index with hone | hle
    · rw [hone, Nat.mul_one]
      exact token.toNat_lt.trans (by decide)
    · calc token.toNat * (config.multiplier index).toNat
          ≤ config.vocabulary_size.toNat * ((2 ^ 63 - 1) / config.vocabulary_size.toNat) :=
            Nat.mul_le_mul htoken.le hle
        _ ≤ 2 ^ 63 - 1 := Nat.mul_div_le _ _
        _ < 2 ^ 63 := by decide
  refine ⟨?_, hlt⟩
  have htoken_lt := token.toNat_lt
  have hwiden : token.toNat % 2 ^ 64 = token.toNat := Nat.mod_eq_of_lt (by omega)
  rw [NgramHash.term, BitVec.toNat_mul, BitVec.toNat_setWidth, UInt32.toNat_toBitVec, hwiden,
    Nat.mod_eq_of_lt (by omega)]

end Fits

end NgramConfig

/-! ### The rows -/

/-- `positive_remainder`, as its name says. -/
theorem positive_remainder_mem (bits : BitVec 64) {divisor : Int} (hpos : 0 < divisor) :
    0 ≤ positive_remainder bits divisor ∧ positive_remainder bits divisor < divisor := by
  have hlt := Int.tmod_lt_of_pos bits.toInt hpos
  have hgt := Int.lt_tmod_of_pos bits.toInt hpos
  unfold positive_remainder
  dsimp only
  split <;> omega

namespace NgramHash

variable {hash : NgramHash}

/-- Whatever the tokens, a row is one of its head. -/
theorem rows_after_mem {head : Fin 16} (hpos : 0 < hash.vocabulary_ head)
    (token previous_one previous_two : UInt32) :
    hash.offsets_ head ≤ hash.rows_after token previous_one previous_two head ∧
      hash.rows_after token previous_one previous_two head <
        hash.offsets_ head + hash.vocabulary_ head := by
  rw [rows_after]
  dsimp only
  split
  · have := positive_remainder_mem (hash.term token 0 ^^^ hash.term previous_one 1) hpos
    omega
  · have := positive_remainder_mem
      (hash.term token 0 ^^^ hash.term previous_one 1 ^^^ hash.term previous_two 2) hpos
    omega

/-- The tokens before a position are tokens of the sequence, or the end of sequence. -/
theorem token_before_mem (tokens : List UInt32) (position back : Nat) :
    hash.token_before tokens position back = hash.eos_ ∨
      hash.token_before tokens position back ∈ tokens := by
  rw [token_before]
  split
  · rcases Nat.lt_or_ge (position - back) tokens.length with hlt | hge
    · rw [List.getD_eq_getElem _ _ hlt]
      exact Or.inr (List.getElem_mem hlt)
    · exact Or.inl (List.getD_eq_default _ _ hge)
  · exact Or.inl rfl

/-- The rows of a token are those after two others, in every state. -/
theorem row_ids_eq (token : UInt32) (state : NgramState) : ∃ previous_one previous_two,
    (hash.row_ids token state).1 = hash.rows_after token previous_one previous_two := by
  unfold row_ids
  dsimp only
  split <;> exact ⟨_, _, rfl⟩

end NgramHash

/-! ### The table -/

/-- **The heads share the table out among them.** Where the totals fit, the heads have different
primes and the ranges of the heads follow one another from 0 on, so that every row below the sum of
the primes is one of exactly one head; the table has these rows and the least number of further
ones that the divisor wants. Every row computed is one of its head, and for the tokens of the
vocabulary the products stay below `2 ^ 63`. -/
theorem NgramConfig.heads_share_table (config : NgramConfig) (h : config.Fits) :
    (∀ head, ∃ p : Nat, p.Prime ∧ config.hash.vocabulary_ head = p) ∧
      Function.Injective config.hash.vocabulary_ ∧
      config.hash.offsets_ 0 = 0 ∧
      (∀ head : Fin 15, config.hash.offsets_ head.succ =
        config.hash.offsets_ head.castSucc + config.hash.vocabulary_ head.castSucc) ∧
      (∀ row : Nat, row < config.rows_before 16 ↔
        ∃ head, config.hash.offsets_ head ≤ row ∧
          row < config.hash.offsets_ head + config.hash.vocabulary_ head) ∧
      (∀ row : Nat, row < config.rows_before 16 →
        ∃! head, config.hash.offsets_ head ≤ row ∧
          row < config.hash.offsets_ head + config.hash.vocabulary_ head) ∧
      config.ngram_vocabulary_divisor.toNat ∣ config.total_rows.toNat ∧
      config.rows_before 16 ≤ config.total_rows.toNat ∧
      config.total_rows.toNat <
        config.rows_before 16 + config.ngram_vocabulary_divisor.toNat ∧
      (∀ token previous_one previous_two head,
        config.hash.offsets_ head ≤
            config.hash.rows_after token previous_one previous_two head ∧
          config.hash.rows_after token previous_one previous_two head <
            config.hash.offsets_ head + config.hash.vocabulary_ head) ∧
      (∀ token state head,
        config.hash.offsets_ head ≤ (config.hash.row_ids token state).1 head ∧
          (config.hash.row_ids token state).1 head <
            config.hash.offsets_ head + config.hash.vocabulary_ head) ∧
      (∀ token index, token.toNat < config.vocabulary_size.toNat →
        (config.hash.term token index).toNat =
            token.toNat * (config.hash.multipliers_ index).toNat ∧
          token.toNat * (config.hash.multipliers_ index).toNat < 2 ^ 63) ∧
      ∀ tokens, (∀ token ∈ tokens, token.toNat < config.vocabulary_size.toNat) →
        ∀ position back index,
          (config.hash.token_before tokens position back).toNat *
            (config.hash.multipliers_ index).toNat < 2 ^ 63 := by
  have hpos (head : Fin 16) : 0 < config.hash.vocabulary_ head := by
    rw [h.vocabulary_eq]
    exact Int.natCast_pos.mpr prime_head_size.pos
  refine ⟨fun head => ⟨_, prime_head_size, h.vocabulary_eq head⟩, h.vocabulary_injective,
    h.offsets_eq 0, h.offsets_succ, fun row => ⟨fun hrow => (h.existsUnique_head hrow).exists, ?_⟩,
    fun row => h.existsUnique_head, h.total_rows_bounds.1, h.total_rows_bounds.2.1,
    h.total_rows_bounds.2.2, fun token previous_one previous_two head =>
      NgramHash.rows_after_mem (hpos head) token previous_one previous_two, ?_,
    fun token index htoken => h.toNat_term htoken index, ?_⟩
  -- a row of a head is below the sum, which has the prime of the head in it
  · rintro ⟨head, -, hlt⟩
    rw [h.offsets_eq, h.vocabulary_eq] at hlt
    have hle : config.rows_before (head + 1) ≤ config.rows_before 16 := sum_range_mono head.isLt
    rw [rows_before_succ] at hle
    omega
  · intro token state head
    obtain ⟨previous_one, previous_two, heq⟩ := @NgramHash.row_ids_eq config.hash token state
    rw [heq]
    exact NgramHash.rows_after_mem (hpos head) token previous_one previous_two
  · intro tokens htokens position back index
    refine (h.toNat_term ?_ index).2
    -- a token before the first one is the end of a sequence
    rcases @NgramHash.token_before_mem config.hash tokens position back with heos | hmem
    · rw [heos]
      exact h.eos_lt
    · exact htokens _ hmem

/-- A configuration in which the primes from 2 to 53 make 381 rows and the table has 382. -/
def NgramConfig.padded : NgramConfig where
  vocabulary_size := 1000
  ngram_vocabulary_base := 2
  ngram_vocabulary_divisor := 2
  ngram_seed := 1234
  end_of_sequence_token := 999

theorem NgramConfig.padded_fits : padded.Fits where
  vocabulary_size_pos := by decide
  divisor_pos := by decide
  eos_lt := by decide
  rows_lt := by decide +kernel
  total_rows_lt := by decide +kernel

/-- The heads share out its table. -/
theorem NgramConfig.heads_share_padded :
    Function.Injective padded.hash.vocabulary_ ∧ padded.hash.offsets_ 0 = 0 :=
  have h := heads_share_table padded padded_fits
  ⟨h.2.1, h.2.2.1⟩

/-- **The last row may be one of no head**: the table is rounded up. -/
theorem NgramConfig.row_of_no_head : padded.Fits ∧ padded.total_rows.toNat = 382 ∧
    ∀ head, ¬(padded.hash.offsets_ head ≤ 381 ∧
      381 < padded.hash.offsets_ head + padded.hash.vocabulary_ head) :=
  ⟨padded_fits, by decide +kernel, by decide +kernel⟩

end Qwen38
