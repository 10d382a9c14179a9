import Mathlib.Data.List.Forall2
import Qwen38.Lib.Except
import Qwen38.Text.Json

/-!
# Reading back what was written

`Qwen38.Json.Reads` says that a text is one way to write a value: the parser reads the text
in front of anything that may follow a value, and comes out with the value behind it. There
is one lemma for each way to build a text, for a whole number, a quoted string, an array and
an object out of texts of their parts, so that a body put together from pieces is read by
the pieces it was put together from.

The printer is one such writer: what `dump` prints is read back as the value, with the
entries of every object in the order of their keys (`Qwen38.Json.reads_dump`).
-/

namespace Qwen38

namespace Json

/-- What may follow a value: a comma or a closing bracket, or the end of the text. Within a document
this is all that the printer puts behind a value. -/
def Stops (rest : Bytes) : Prop := ∀ b ∈ rest.head?, b = 44 ∨ b = 93 ∨ b = 125

theorem stops_nil : Stops [] := nofun

theorem stops_cons {b : UInt8} {rest : Bytes} (h : b = 44 ∨ b = 93 ∨ b = 125) :
    Stops (b :: rest) := by
  intro b' hb'
  obtain rfl := Option.some.inj hb'
  exact h

/-! ### Strings -/

theorem hex_digit_lower_hex {n : Nat} (h : n < 16) : hex_digit (lower_hex n) = some n := by
  revert n
  decide

/-- The escape of a control character. -/
theorem parse_codepoint_control {b : UInt8} (h : b < 0x20) (rest : Bytes) :
    parse_codepoint (48 :: 48 :: lower_hex (b.toNat / 16) :: lower_hex (b.toNat % 16) :: rest) =
      .ok (b.toNat, rest) := by
  have hlt : b.toNat < 32 := UInt8.lt_iff_toNat_lt.mp h
  have hhigh : hex_digit (lower_hex (b.toNat / 16)) = some (b.toNat / 16) :=
    hex_digit_lower_hex (by omega)
  have hlow : hex_digit (lower_hex (b.toNat % 16)) = some (b.toNat % 16) :=
    hex_digit_lower_hex (by omega)
  have hzero : hex_digit 48 = some 0 := rfl
  have hhex : parse_hex4
      (48 :: 48 :: lower_hex (b.toNat / 16) :: lower_hex (b.toNat % 16) :: rest) =
        .ok (b.toNat, rest) := by
    rw [parse_hex4, if_neg (by simp only [List.length_cons]; omega)]
    simp only [hex_digits, hzero, hhigh, hlow]
    have hvalue : (((0 * 16 + 0) * 16 + 0) * 16 + b.toNat / 16) * 16 + b.toNat % 16 = b.toNat := by
      omega
    rw [hvalue]
  rw [parse_codepoint, hhex]
  dsimp only [bind, Except.bind]
  rw [if_neg (by omega), if_neg (by omega)]

/-- One round of the loop takes one byte, however it was quoted. There are nine ways to quote one,
and each of them ends where the next byte begins. -/
theorem parse_string_loop_quote_byte (fuel : Nat) (output rest : Bytes) (b : UInt8) :
    parse_string_loop (fuel + 1) output (quote_byte b ++ rest) =
      parse_string_loop fuel (output ++ [b]) rest := by
  rw [quote_byte]
  split_ifs with h34 h92 h8 h12 h10 h13 h9 hcontrol
  · rw [h34]
    rfl
  · rw [h92]
    rfl
  · rw [h8]
    rfl
  · rw [h12]
    rfl
  · rw [h10]
    rfl
  · rw [h13]
    rfl
  · rw [h9]
    rfl
  · have hb : utf8_of_codepoint b.toNat = [b] := by
      have hlt : b.toNat < 32 := UInt8.lt_iff_toNat_lt.mp hcontrol
      rw [utf8_of_codepoint, if_pos (by omega)]
      simp
    have hstep : parse_string_loop (fuel + 1) output (ascii ['\\', 'u', '0', '0'] ++
        [lower_hex (b.toNat / 16), lower_hex (b.toNat % 16)] ++ rest) =
          (parse_codepoint (48 :: 48 :: lower_hex (b.toNat / 16) ::
            lower_hex (b.toNat % 16) :: rest)).bind fun r =>
              parse_string_loop fuel (output ++ utf8_of_codepoint r.1) r.2 := rfl
    rw [hstep, parse_codepoint_control hcontrol]
    exact congrArg (fun bytes => parse_string_loop fuel (output ++ bytes) rest) hb
  · rw [List.singleton_append, parse_string_loop.eq_def]
    dsimp only
    rw [if_neg h34, if_neg hcontrol, if_pos h92]

theorem parse_string_loop_quoted {fuel : Nat} {s : Bytes} (h : s.length < fuel) (output rest : Bytes) :
    parse_string_loop fuel output (s.flatMap quote_byte ++ 34 :: rest) = .ok (output ++ s, rest) := by
  induction s generalizing fuel output with
  | nil =>
    obtain ⟨fuel, rfl⟩ := Nat.exists_eq_succ_of_ne_zero (Nat.ne_of_gt h)
    rw [List.append_nil]
    rfl
  | cons b s ih =>
    obtain ⟨fuel, rfl⟩ := Nat.exists_eq_succ_of_ne_zero (Nat.ne_of_gt (Nat.zero_lt_of_lt h))
    rw [List.flatMap_cons, List.append_assoc, parse_string_loop_quote_byte,
      ih (Nat.lt_of_succ_lt_succ h), List.append_assoc]
    rfl

theorem length_le_flatMap_quote_byte (s : Bytes) : s.length ≤ (s.flatMap quote_byte).length := by
  induction s with
  | nil => exact Nat.le_refl _
  | cons b s ih =>
    have hone : 1 ≤ (quote_byte b).length := by
      rw [quote_byte]
      split_ifs <;> simp [ascii]
    rw [List.flatMap_cons, List.length_append, List.length_cons]
    omega

/-- **A quoted string is read back**, whatever its bytes are, and the text behind it is left alone.
Neither side asks for UTF-8: bytes from 128 on are written and read as they are. -/
theorem parse_string_quote (s rest : Bytes) :
    parse_string (quote_json_string s ++ rest) = .ok (s, rest) := by
  have hopen : quote_json_string s ++ rest = 34 :: (s.flatMap quote_byte ++ 34 :: rest) := by
    rw [quote_json_string, List.append_assoc, List.append_assoc]
    rfl
  have hle := length_le_flatMap_quote_byte s
  rw [hopen]
  refine (parse_string_loop_quoted ?_ [] rest).trans (by rw [List.nil_append])
  change s.length < (s.flatMap quote_byte ++ 34 :: rest).length + 1
  rw [List.length_append]
  omega

/-! ### Whole numbers -/

/-- The decimal digits of a number. -/
def digits_of (n : Nat) : Bytes := ascii (Nat.toDigits 10 n)

theorem digits_of_eq_if (n : Nat) : digits_of n =
    if n < 10 then ascii [n.digitChar] else digits_of (n / 10) ++ ascii [(n % 10).digitChar] := by
  rw [digits_of, Nat.toDigits_eq_if (by decide)]
  split
  · rfl
  · rw [ascii, List.map_append]
    rfl

theorem digit_of_lt {n : Nat} (h : n < 10) :
    digits_value (ascii [n.digitChar]) = n ∧ (n ≠ 0 → (ascii [n.digitChar]).head? ≠ some 48) := by
  revert n
  decide

theorem is_digit_of_mem_digits_of {n : Nat} {b : UInt8} (h : b ∈ digits_of n) :
    is_digit b = true := by
  have hone : ∀ m < 10, ∀ b ∈ ascii [Nat.digitChar m], is_digit b = true := fun m hm =>
    List.forall_mem_singleton.mpr
      ((by decide : ∀ m < 10, is_digit (Nat.digitChar m).toNat.toUInt8 = true) m hm)
  induction n using Nat.strong_induction_on with
  | _ n ih =>
    rw [digits_of_eq_if] at h
    split at h
    next hlt => exact hone n hlt b h
    next hge =>
      rcases List.mem_append.mp h with h | h
      · exact ih (n / 10) (by omega) h
      · exact hone (n % 10) (Nat.mod_lt n (by decide)) b h

theorem digits_of_ne_nil (n : Nat) : digits_of n ≠ [] := by
  rw [digits_of_eq_if]
  split <;> simp [ascii]

theorem digits_value_digits_of (n : Nat) : digits_value (digits_of n) = n := by
  induction n using Nat.strong_induction_on with
  | _ n ih =>
    rw [digits_of_eq_if]
    split
    next hlt => exact (digit_of_lt hlt).1
    next hge =>
      have hone := (digit_of_lt (Nat.mod_lt n (show 0 < 10 by decide))).1
      have hrest := ih (n / 10) (by omega)
      rw [digits_value] at hone hrest ⊢
      rw [List.foldl_append, hrest]
      simp only [ascii, List.map_cons, List.map_nil, List.foldl_cons, List.foldl_nil] at hone ⊢
      omega

/-- No leading zero. -/
theorem head?_digits_of {n : Nat} (h : n ≠ 0) : (digits_of n).head? ≠ some 48 := by
  induction n using Nat.strong_induction_on with
  | _ n ih =>
    rw [digits_of_eq_if]
    split
    next hlt => exact (digit_of_lt hlt).2 h
    next hge =>
      rw [List.head?_append_of_ne_nil _ (digits_of_ne_nil _)]
      exact ih (n / 10) (by omega) (by omega)

theorem integer_text_eq (value : Int) : integer_text value =
    if value < 0 then 45 :: digits_of value.natAbs else digits_of value.natAbs := by
  rw [integer_text, Int.toString_eq_repr, Int.repr_eq_if]
  by_cases h : 0 ≤ value
  · have habs : value.toNat = value.natAbs := by omega
    rw [if_pos h, if_neg (by omega), habs, Nat.toList_repr]
    rfl
  · have habs : (-value).toNat = value.natAbs := by omega
    rw [if_neg h, if_pos (by omega), habs, String.toList_append, Nat.toList_repr]
    rfl

/-- Digits that do not start with a zero, unless they are one. -/
def IsDigits (digits : Bytes) : Prop :=
  digits = [48] ∨ digits ≠ [] ∧ (∀ b ∈ digits, is_digit b = true) ∧ digits.head? ≠ some 48

/-- A fraction, or none. -/
def IsFraction (fraction : Bytes) : Prop :=
  fraction = [] ∨
    ∃ digits, digits ≠ [] ∧ (∀ b ∈ digits, is_digit b = true) ∧ fraction = 46 :: digits

/-- An exponent with its sign, or none. -/
def IsExponent (exponent : Bytes) : Prop :=
  exponent = [] ∨ ∃ sign digits, (sign = 43 ∨ sign = 45) ∧ digits ≠ [] ∧
    (∀ b ∈ digits, is_digit b = true) ∧ exponent = 101 :: sign :: digits

/-- An exponent of any form, or none. -/
def IsExp (exponent : Bytes) : Prop :=
  exponent = [] ∨ ∃ mark sign digits, (mark = 101 ∨ mark = 69) ∧
    (sign = [] ∨ sign = [43] ∨ sign = [45]) ∧ digits ≠ [] ∧ (∀ b ∈ digits, is_digit b = true) ∧
    exponent = mark :: sign ++ digits

theorem IsExponent.isExp {exponent : Bytes} (h : IsExponent exponent) : IsExp exponent := by
  rcases h with rfl | ⟨sign, digits, hsign, hne, hall, rfl⟩
  · exact Or.inl rfl
  · refine Or.inr ⟨101, [sign], digits, Or.inl rfl, Or.inr ?_, hne, hall, rfl⟩
    rcases hsign with rfl | rfl
    · exact Or.inl rfl
    · exact Or.inr rfl

theorem isDigits_digits_of (n : Nat) : IsDigits (digits_of n) := by
  by_cases hn : n = 0
  · subst hn
    exact Or.inl rfl
  · exact Or.inr ⟨digits_of_ne_nil n, fun b hb => is_digit_of_mem_digits_of hb, head?_digits_of hn⟩

/-- No digit comes next. -/
def NoDigit (rest : Bytes) : Prop := ∀ b ∈ rest.head?, is_digit b = false

theorem NoDigit.takeWhile {rest : Bytes} (h : NoDigit rest) {digits : Bytes}
    (hdigits : ∀ b ∈ digits, is_digit b = true) :
    (digits ++ rest).takeWhile is_digit = digits ∧ (digits ++ rest).dropWhile is_digit = rest := by
  rw [List.takeWhile_append_of_pos hdigits, List.dropWhile_append_of_pos hdigits]
  cases rest with
  | nil => exact ⟨List.append_nil _, rfl⟩
  | cons b rest =>
    have hb : is_digit b = false := h b rfl
    rw [List.takeWhile_cons_of_neg (by simp [hb]), List.dropWhile_cons_of_neg (by simp [hb]),
      List.append_nil]
    exact ⟨rfl, rfl⟩

theorem NoDigit.digit_run {rest : Bytes} (h : NoDigit rest) {digits : Bytes} (hne : digits ≠ [])
    (hdigits : ∀ b ∈ digits, is_digit b = true) (message : String) :
    digit_run message (digits ++ rest) = .ok (digits, rest) := by
  obtain ⟨htake, hdrop⟩ := h.takeWhile hdigits
  obtain ⟨b, tail, rfl⟩ := List.exists_cons_of_ne_nil hne
  rw [Json.digit_run, htake, hdrop]

theorem NoDigit.integer_part {rest : Bytes} (h : NoDigit rest) {digits : Bytes}
    (hdigits : IsDigits digits) : integer_part (digits ++ rest) = .ok (digits, rest) := by
  rw [Json.integer_part]
  rcases hdigits with rfl | ⟨hne, hall, hhead⟩
  · have hzero : consume_char '0' ([48] ++ rest) = some rest := rfl
    rw [hzero]
    cases rest with
    | nil => rfl
    | cons b rest =>
      have hb : is_digit b = false := h b rfl
      dsimp only
      rw [hb]
      rfl
  · have hnot : consume_char '0' (digits ++ rest) = none := by
      rw [consume_char, consume, if_neg]
      rintro ⟨t, ht⟩
      have hcons := congrArg List.head? ht
      rw [List.head?_append_of_ne_nil _ hne] at hcons
      exact hhead hcons.symm
    rw [hnot]
    exact h.digit_run hne hall _

/-- A number does not go on. -/
def Ends (rest : Bytes) : Prop :=
  ∀ b ∈ rest.head?, is_digit b = false ∧ b ≠ 46 ∧ b ≠ 101 ∧ b ≠ 69

theorem Stops.ends {rest : Bytes} (h : Stops rest) : Ends rest := by
  intro b hb
  rcases h b hb with rfl | rfl | rfl <;> decide

theorem Ends.noDigit {rest : Bytes} (h : Ends rest) : NoDigit rest := fun b hb => (h b hb).1

/-- What follows the digits before a fraction or an exponent. -/
theorem IsExp.head {exponent : Bytes} (he : IsExp exponent) {rest : Bytes} (h : Ends rest) :
    ∀ b ∈ (exponent ++ rest).head?, is_digit b = false ∧ b ≠ 46 := by
  rcases he with rfl | ⟨mark, sign, digits, hmark, -, -, -, rfl⟩
  · intro b hb
    exact ⟨(h b hb).1, (h b hb).2.1⟩
  · intro b hb
    obtain rfl := Option.some.inj hb
    rcases hmark with rfl | rfl <;> decide

theorem IsExp.noDigit {exponent : Bytes} (he : IsExp exponent) {rest : Bytes} (h : Ends rest) :
    NoDigit (exponent ++ rest) := fun b hb => (he.head h b hb).1

theorem IsFraction.noDigit {fraction exponent : Bytes} (hf : IsFraction fraction)
    (he : IsExp exponent) {rest : Bytes} (h : Ends rest) :
    NoDigit (fraction ++ (exponent ++ rest)) := by
  rcases hf with rfl | ⟨digits, -, -, rfl⟩
  · exact he.noDigit h
  · intro b hb
    obtain rfl := Option.some.inj hb
    rfl

/-- What a number stands for: a whole number of the machine, or what the library reads. A whole
number that is out of range is read as a double, like one with a fraction or an exponent. -/
def token_value (numbers : NumberText) (negative : Bool) (digits fraction exponent : Bytes) :
    Option (Json numbers.Double) :=
  match if fraction = [] ∧ exponent = [] then from_chars negative digits else none with
  | some value => some (.integer value)
  | none =>
    (numbers.strtod ((if negative then ascii ['-'] else []) ++ digits ++ fraction ++ exponent)).map
      .number

/-- The sign of a number. -/
theorem bind_minus {α : Type} {k : Bytes × Bytes → Except Failure α} {r : Except Failure α}
    (negative : Bool) {text : Bytes} (hplus : consume_char '-' text = none) (hne : text ≠ [])
    (h : k (if negative then ascii ['-'] else [], text) = r) :
    (match consume_char '-' ((if negative then ascii ['-'] else []) ++ text) with
      | some after => if after = [] then fail after "incomplete number" >>= k
        else Except.ok (ascii ['-'], after) >>= k
      | none => Except.ok ([], (if negative then ascii ['-'] else []) ++ text) >>= k) = r := by
  cases negative with
  | true =>
    have hminus : consume_char '-' (ascii ['-'] ++ text) = some text := rfl
    rw [if_pos rfl, hminus]
    dsimp only
    rw [if_neg hne]
    exact h
  | false =>
    rw [if_neg (by decide), List.nil_append, hplus]
    exact h

/-- Its fraction. -/
theorem bind_fraction {α : Type} {k : Bytes × Bytes → Except Failure α} {r : α}
    {fraction exponent rest : Bytes} (hfraction : IsFraction fraction)
    (hexponent : IsExp exponent) (hrest : Ends rest)
    (h : k (fraction, exponent ++ rest) = .ok r) :
    (match consume_char '.' (fraction ++ (exponent ++ rest)) with
      | some after => do
        let (digits, after) ← digit_run "fraction requires digits" after
        Except.ok (ascii ['.'] ++ digits, after) >>= k
      | none => Except.ok ([], fraction ++ (exponent ++ rest)) >>= k) = .ok r := by
  rcases hfraction with rfl | ⟨digits, hne, hall, rfl⟩
  · have hpoint : consume_char '.' (exponent ++ rest) = none := by
      rw [consume_char, consume, if_neg]
      rintro ⟨t, ht⟩
      exact (hexponent.head hrest 46 (by rw [← ht]; rfl)).2 rfl
    rw [List.nil_append, hpoint]
    exact h
  · have hpoint : consume_char '.' (46 :: digits ++ (exponent ++ rest)) =
        some (digits ++ (exponent ++ rest)) := rfl
    rw [hpoint]
    exact Except.bind_eq_ok.mpr ⟨_, (hexponent.noDigit hrest).digit_run hne hall _, h⟩

/-- Its exponent. -/
theorem bind_exponent {α : Type} {k : Bytes × Bytes → Except Failure α} {r : α}
    {exponent rest : Bytes} (hexponent : IsExp exponent) (hrest : Ends rest)
    (h : k (exponent, rest) = .ok r) :
    (match exponent ++ rest with
      | e :: after =>
        if e = 101 ∨ e = 69 then
          match match after with
            | s :: after' => if s = 43 ∨ s = 45 then ([s], after') else ([], after)
            | [] => ([], after) with
          | (sign, after) => do
            let (digits, after) ← digit_run "exponent requires digits" after
            Except.ok (e :: sign ++ digits, after) >>= k
        else Except.ok ([], exponent ++ rest) >>= k
      | [] => Except.ok ([], exponent ++ rest) >>= k) = .ok r := by
  rcases hexponent with rfl | ⟨mark, sign, digits, hmark, hsign, hne, hall, rfl⟩
  -- no exponent: what follows does not begin one
  · cases rest with
    | nil => exact h
    | cons b rest =>
      have hb : ¬(b = 101 ∨ b = 69) := by
        have hend := hrest b rfl
        rintro (rfl | rfl)
        · exact hend.2.2.1 rfl
        · exact hend.2.2.2 rfl
      dsimp only [List.nil_append]
      rw [if_neg hb]
      exact h
  · have hrun := hrest.noDigit.digit_run hne hall "exponent requires digits"
    rcases hsign with rfl | rfl | rfl
    -- without a sign, the first digit is not taken for one
    · obtain ⟨b, digits, rfl⟩ := List.exists_cons_of_ne_nil hne
      have hb : ¬(b = 43 ∨ b = 45) := by
        have hdigit := hall b List.mem_cons_self
        rintro (rfl | rfl) <;> exact absurd hdigit (by decide)
      dsimp only [List.cons_append, List.nil_append]
      rw [if_pos hmark, if_neg hb]
      exact Except.bind_eq_ok.mpr ⟨_, hrun, h⟩
    · dsimp only [List.cons_append, List.nil_append]
      rw [if_pos hmark, if_pos (Or.inl rfl)]
      exact Except.bind_eq_ok.mpr ⟨_, hrun, h⟩
    · dsimp only [List.cons_append, List.nil_append]
      rw [if_pos hmark, if_pos (Or.inr rfl)]
      exact Except.bind_eq_ok.mpr ⟨_, hrun, h⟩

/-- **A number of any form is read**, up to what may follow a value. The parser goes on with a
number as long as it can, so what follows must not be a digit, a period or the mark of an
exponent. -/
theorem parse_number_token (numbers : NumberText) (negative : Bool)
    {digits fraction exponent rest : Bytes} (hdigits : IsDigits digits)
    (hfraction : IsFraction fraction) (hexponent : IsExp exponent) (h : Ends rest)
    {value : Json numbers.Double}
    (hvalue : token_value numbers negative digits fraction exponent = some value) :
    parse_number numbers ((if negative then ascii ['-'] else []) ++
      (digits ++ (fraction ++ (exponent ++ rest)))) = .ok (value, rest) := by
  have hplus : consume_char '-' (digits ++ (fraction ++ (exponent ++ rest))) = none := by
    rcases hdigits with rfl | ⟨hne, hall, -⟩
    · rfl
    · obtain ⟨b, digits, rfl⟩ := List.exists_cons_of_ne_nil hne
      have hb : is_digit b = true := hall b List.mem_cons_self
      rw [consume_char, consume, if_neg]
      rintro ⟨t, ht⟩
      obtain ⟨rfl, -⟩ := List.cons.inj ht
      exact absurd hb (by decide)
  have hne : digits ++ (fraction ++ (exponent ++ rest)) ≠ [] := by
    rcases hdigits with rfl | ⟨hne, -, -⟩
    · exact List.cons_ne_nil _ _
    · exact List.append_ne_nil_of_left_ne_nil hne _
  rw [parse_number]
  rw [token_value] at hvalue
  -- the conversion is not to be computed here
  generalize from_chars = convert at hvalue ⊢
  refine bind_minus negative hplus hne ?_
  refine Except.bind_eq_ok.mpr
    ⟨(digits, fraction ++ (exponent ++ rest)), (hfraction.noDigit hexponent h).integer_part hdigits,
      ?_⟩
  refine bind_fraction hfraction hexponent h ?_
  refine bind_exponent hexponent h ?_
  have hsign : decide ((if negative then ascii ['-'] else []) ≠ []) = negative := by
    cases negative <;> rfl
  dsimp only
  rw [hsign]
  cases hinteger : (if fraction = [] ∧ exponent = [] then convert negative digits else none) with
  | some n =>
    rw [hinteger] at hvalue
    obtain rfl := Option.some.inj hvalue
    rfl
  | none =>
    rw [hinteger] at hvalue
    obtain ⟨d, hd, rfl⟩ := Option.map_eq_some_iff.mp hvalue
    dsimp only
    rw [hd]

/-- What an optional minus and digits stand for. -/
def whole_number (numbers : NumberText) (negative : Bool) (digits : Bytes) :
    Option (Json numbers.Double) :=
  match from_chars negative digits with
  | some value => some (.integer value)
  | none => (numbers.strtod ((if negative then ascii ['-'] else []) ++ digits)).map .number

theorem token_value_whole (numbers : NumberText) (negative : Bool) (digits : Bytes) :
    token_value numbers negative digits [] [] = whole_number numbers negative digits := by
  rw [token_value, whole_number, if_pos ⟨rfl, rfl⟩, List.append_nil, List.append_nil]

/-! ### Texts of values -/

/-- The parser reads this text as this value, in front of anything that may follow one. The text
starts with neither white space nor a closing bracket, so that it can stand first in an array or an
object. -/
structure Reads (numbers : NumberText) (text : Bytes) (value : Json numbers.Double) : Prop where
  start : ∀ b ∈ text.head?, is_json_space b = false ∧ b ≠ 93
  ne_nil : text ≠ []
  parse_value : ∀ {fuel rest}, text.length < fuel → Stops rest →
    parse_value numbers fuel (text ++ rest) = .ok (value, rest)

variable {numbers : NumberText} {text : Bytes} {value : Json numbers.Double}

theorem skip_json_space_of_head {b : UInt8} (h : is_json_space b = false) (rest : Bytes) :
    skip_json_space (b :: rest) = b :: rest := List.dropWhile_cons_of_neg (by simp [h])

theorem Reads.skip_json_space (h : Reads numbers text value) (rest : Bytes) :
    skip_json_space (text ++ rest) = text ++ rest := by
  obtain ⟨b, tail, rfl⟩ := List.exists_cons_of_ne_nil h.ne_nil
  exact skip_json_space_of_head (h.start b rfl).1 _

theorem Stops.skip_json_space {rest : Bytes} (h : Stops rest) : skip_json_space rest = rest := by
  cases rest with
  | nil => rfl
  | cons b rest =>
    refine skip_json_space_of_head ?_ rest
    rcases h b rfl with rfl | rfl | rfl <;> rfl

/-- **A text that reads as a value parses as it.** This is the way out of the layer: everything
before it is about texts inside others, and here nothing follows. -/
theorem parse_of_reads (h : Reads numbers text value) : parse numbers text = .ok value := by
  have hskip := h.skip_json_space []
  have hvalue := h.parse_value (Nat.lt_succ_self text.length) stops_nil
  rw [List.append_nil] at hskip hvalue
  rw [parse, hskip, hvalue]
  rfl

/-- A text by its first byte: the fuel is not used up before it. -/
theorem reads_of_cons {b : UInt8} {tail : Bytes} (hspace : is_json_space b = false) (hclose : b ≠ 93)
    (h : ∀ {fuel rest}, tail.length < fuel → Stops rest →
      Json.parse_value numbers (fuel + 1) (b :: tail ++ rest) = .ok (value, rest)) :
    Reads numbers (b :: tail) value where
  start := by
    intro b' hb'
    obtain rfl := Option.some.inj hb'
    exact ⟨hspace, hclose⟩
  ne_nil := List.cons_ne_nil _ _
  parse_value := by
    intro fuel rest hfuel hrest
    obtain ⟨fuel, rfl⟩ := Nat.exists_eq_succ_of_ne_zero (Nat.ne_of_gt (Nat.zero_lt_of_lt hfuel))
    exact h (Nat.lt_of_succ_lt_succ hfuel) hrest

theorem reads_null : Reads numbers (ascii ['n', 'u', 'l', 'l']) .null :=
  reads_of_cons rfl (by decide) fun _ _ => rfl

theorem reads_boolean (b : Bool) : Reads numbers
    (if b then ascii ['t', 'r', 'u', 'e'] else ascii ['f', 'a', 'l', 's', 'e']) (.boolean b) := by
  cases b with
  | true => exact reads_of_cons rfl (by decide) fun _ _ => rfl
  | false => exact reads_of_cons rfl (by decide) fun _ _ => rfl

theorem reads_string (s : Bytes) : Reads numbers (quote_json_string s) (.string s) := by
  refine reads_of_cons rfl (by decide) fun {fuel rest} hfuel hrest => ?_
  have hstring := parse_string_quote s rest
  have hopen : Json.parse_value numbers (fuel + 1) (quote_json_string s ++ rest) =
      (parse_string (quote_json_string s ++ rest)).map fun (value, rest) => (.string value, rest) :=
    rfl
  rw [hstring] at hopen
  exact hopen

/-- A number starts with a minus or a digit. -/
theorem number_head (negative : Bool) {digits : Bytes} (hdigits : IsDigits digits) (more : Bytes) :
    ∃ b tail, (if negative then ascii ['-'] else []) ++ (digits ++ more) = b :: tail ∧
      (b = 45 ∨ is_digit b = true) := by
  cases negative with
  | true => exact ⟨45, digits ++ more, rfl, Or.inl rfl⟩
  | false =>
    rcases hdigits with rfl | ⟨hne, hall, -⟩
    · exact ⟨48, more, rfl, Or.inr rfl⟩
    · obtain ⟨d, digits, rfl⟩ := List.exists_cons_of_ne_nil hne
      exact ⟨d, digits ++ more, rfl, Or.inr (hall d List.mem_cons_self)⟩

theorem ne_of_number_head {b c : UInt8} (hb : b = 45 ∨ is_digit b = true) (h45 : c ≠ 45)
    (hc : is_digit c = false) : b ≠ c := by
  rintro rfl
  rcases hb with rfl | hdigit
  · exact h45 rfl
  · rw [hc] at hdigit
    cases hdigit

theorem not_space_of_number_head {b : UInt8} (hb : b = 45 ∨ is_digit b = true) :
    is_json_space b = false := by
  rw [Bool.eq_false_iff]
  intro hspace
  simp only [is_json_space, Bool.or_eq_true, beq_iff_eq] at hspace
  rcases hspace with ((h | h) | h) | h
  · exact ne_of_number_head hb (by decide : (32 : UInt8) ≠ 45) rfl h
  · exact ne_of_number_head hb (by decide : (9 : UInt8) ≠ 45) rfl h
  · exact ne_of_number_head hb (by decide : (10 : UInt8) ≠ 45) rfl h
  · exact ne_of_number_head hb (by decide : (13 : UInt8) ≠ 45) rfl h

theorem parse_value_number {b : UInt8} (hb : b = 45 ∨ is_digit b = true) (fuel : Nat)
    (tail : Bytes) :
    parse_value numbers (fuel + 1) (b :: tail) = parse_number numbers (b :: tail) := by
  have hnot : ∀ c, c ≠ 45 → is_digit c = false → b ≠ c := fun _ => ne_of_number_head hb
  rw [parse_value.eq_def]
  dsimp only
  rw [if_neg (hnot 110 (by decide) rfl), if_neg (hnot 116 (by decide) rfl),
    if_neg (hnot 102 (by decide) rfl), if_neg (hnot 34 (by decide) rfl),
    if_neg (hnot 91 (by decide) rfl), if_neg (hnot 123 (by decide) rfl), if_pos hb]

/-- **The text of a number**, of any form that the grammar has, reads as what its parts stand
for. -/
theorem reads_token {negative : Bool} {digits fraction exponent : Bytes}
    (hdigits : IsDigits digits) (hfraction : IsFraction fraction) (hexponent : IsExponent exponent)
    (hvalue : token_value numbers negative digits fraction exponent = some value) :
    Reads numbers ((if negative then ascii ['-'] else []) ++ digits ++ fraction ++ exponent)
      value := by
  rw [List.append_assoc, List.append_assoc]
  obtain ⟨b, tail, htext, hb⟩ := number_head negative hdigits (fraction ++ exponent)
  rw [htext]
  refine reads_of_cons (not_space_of_number_head hb) (ne_of_number_head hb (by decide) rfl)
    fun {fuel rest} hfuel hrest => ?_
  have hnumber := parse_number_token numbers negative hdigits hfraction hexponent.isExp
    hrest.ends hvalue
  have hassoc : (if negative then ascii ['-'] else []) ++
      (digits ++ (fraction ++ (exponent ++ rest))) = b :: tail ++ rest := by
    rw [← htext]
    simp only [List.append_assoc]
  rw [hassoc] at hnumber
  exact (parse_value_number hb fuel (tail ++ rest)).trans hnumber

/-- A number with an optional minus. -/
theorem reads_whole_number {negative : Bool} {n : Nat}
    (hvalue : whole_number numbers negative (digits_of n) = some value) :
    Reads numbers ((if negative then ascii ['-'] else []) ++ digits_of n) value := by
  have hreads := reads_token (isDigits_digits_of n) (Or.inl rfl) (Or.inl rfl)
    ((token_value_whole numbers negative (digits_of n)).trans hvalue)
  rw [List.append_nil, List.append_nil] at hreads
  exact hreads

/-- **A whole number of the type is read back.** At the ends of its range too: the parser reads the
digits together with their sign, so that the least number does not overflow. -/
theorem reads_integer {value : Int} (hlow : -2 ^ 63 ≤ value) (hhigh : value < 2 ^ 63) :
    Reads numbers (integer_text value) (.integer value) := by
  have htext : integer_text value =
      (if decide (value < 0) then ascii ['-'] else []) ++ digits_of value.natAbs := by
    rw [integer_text_eq]
    by_cases h : value < 0
    · rw [if_pos h, if_pos (decide_eq_true h)]
      rfl
    · rw [if_neg h, if_neg (by simpa using h)]
      rfl
  rw [htext]
  refine reads_whole_number ?_
  have hvalue : (if decide (value < 0) = true then -(value.natAbs : Int) else value.natAbs) =
      value := by
    by_cases h : value < 0
    · rw [if_pos (decide_eq_true h)]
      omega
    · rw [if_neg (by simpa using h)]
      omega
  rw [whole_number, from_chars, digits_value_digits_of, hvalue, if_pos ⟨hlow, hhigh⟩]

/-! ### Arrays and objects -/

theorem comma_separated_cons (piece : Bytes) {pieces : List Bytes} (h : pieces ≠ []) :
    comma_separated (piece :: pieces) = piece ++ 44 :: comma_separated pieces := by
  obtain ⟨next, pieces, rfl⟩ := List.exists_cons_of_ne_nil h
  simp [comma_separated, List.intersperse, ascii]

theorem consume_char_of_ne {c : Char} {b : UInt8} (h : b ≠ c.toNat.toUInt8) (rest : Bytes) :
    consume_char c (b :: rest) = none := by
  rw [consume_char, consume, if_neg]
  rintro ⟨t, ht⟩
  exact h (List.cons.inj ht).1.symm

/-- The items of an array, with the bracket behind them, are read one after the other. The induction
is on the items that are left, with those that have been read in front of them. -/
theorem parse_items_of_reads {pairs : List (Bytes × Json numbers.Double)} (hne : pairs ≠ [])
    (hreads : ∀ pair ∈ pairs, Reads numbers pair.1 pair.2) {fuel : Nat}
    (hfuel : (comma_separated (pairs.map Prod.fst)).length + 1 < fuel)
    (items : List (Json numbers.Double)) (rest : Bytes) :
    parse_items numbers fuel items (comma_separated (pairs.map Prod.fst) ++ 93 :: rest) =
      .ok (.array (items ++ pairs.map Prod.snd), rest) := by
  induction pairs generalizing fuel items with
  | nil => exact absurd rfl hne
  | cons pair pairs ih =>
    obtain ⟨fuel, rfl⟩ := Nat.exists_eq_succ_of_ne_zero (Nat.ne_of_gt (Nat.zero_lt_of_lt hfuel))
    have hpair := hreads pair List.mem_cons_self
    rw [parse_items]
    by_cases hlast : pairs = []
    -- the last item, with the bracket behind it
    · subst hlast
      have htext : comma_separated ([pair].map Prod.fst) = pair.1 := by
        simp [comma_separated]
      rw [htext] at hfuel ⊢
      have hstop : Stops (93 :: rest) := stops_cons (by decide)
      rw [hpair.skip_json_space, hpair.parse_value (by omega) hstop]
      refine Except.bind_eq_ok.mpr ⟨_, rfl, ?_⟩
      dsimp only
      rw [hstop.skip_json_space]
      rfl
    -- another one, with the comma behind it
    · rw [List.map_cons, comma_separated_cons _ (by simpa using hlast)] at hfuel ⊢
      rw [List.length_append, List.length_cons] at hfuel
      have hstop : ∀ more, Stops (44 :: more) := fun more => stops_cons (by decide)
      rw [List.append_assoc, hpair.skip_json_space, List.cons_append,
        hpair.parse_value (by omega) (hstop _)]
      refine Except.bind_eq_ok.mpr ⟨_, rfl, ?_⟩
      dsimp only
      rw [(hstop _).skip_json_space, consume_char_of_ne (by decide)]
      dsimp only
      refine Except.bind_eq_ok.mpr
        ⟨((), comma_separated (pairs.map Prod.fst) ++ 93 :: rest), rfl, ?_⟩
      have hfuel' : (comma_separated (pairs.map Prod.fst)).length + 1 < fuel := by omega
      have hmore := ih hlast (fun p hp => hreads p (List.mem_cons_of_mem _ hp)) hfuel'
        (items ++ [pair.2])
      rw [List.append_assoc] at hmore
      exact hmore

theorem exists_cons_comma_separated (pieces : List Bytes) (hne : pieces ≠ []) {P : UInt8 → Prop}
    (h : ∀ piece ∈ pieces, ∃ b tail, piece = b :: tail ∧ P b) :
    ∃ b tail, comma_separated pieces = b :: tail ∧ P b := by
  obtain ⟨piece, pieces, rfl⟩ := List.exists_cons_of_ne_nil hne
  obtain ⟨b, tail, rfl, hb⟩ := h piece List.mem_cons_self
  by_cases hlast : pieces = []
  · subst hlast
    exact ⟨b, tail, by simp [comma_separated], hb⟩
  · exact ⟨b, _, comma_separated_cons _ hlast, hb⟩

/-- **An array out of the texts of its items.** The items may have been written by whoever, as long
as each of them is read back. -/
theorem reads_array {pairs : List (Bytes × Json numbers.Double)}
    (hreads : ∀ pair ∈ pairs, Reads numbers pair.1 pair.2) :
    Reads numbers (ascii ['['] ++ comma_separated (pairs.map Prod.fst) ++ ascii [']'])
      (.array (pairs.map Prod.snd)) := by
  have htext : ascii ['['] ++ comma_separated (pairs.map Prod.fst) ++ ascii [']'] =
      91 :: (comma_separated (pairs.map Prod.fst) ++ [93]) := by simp [ascii]
  rw [htext]
  refine reads_of_cons rfl (by decide) fun {fuel rest} hfuel hrest => ?_
  rw [List.length_append, List.length_singleton] at hfuel
  have hopen : ∀ items : Bytes, Json.parse_value numbers (fuel + 1) (91 :: items) =
      match consume_char ']' (Json.skip_json_space items) with
      | some rest => .ok (.array [], rest)
      | none => parse_items numbers fuel [] (Json.skip_json_space items) := fun _ => rfl
  by_cases hempty : pairs = []
  · subst hempty
    rfl
  · obtain ⟨b, tail, hcons, hspace, hclose⟩ := exists_cons_comma_separated
      (pairs.map Prod.fst) (P := fun b => is_json_space b = false ∧ b ≠ 93)
      (by simpa using hempty) fun piece hpiece => by
        obtain ⟨pair, hpair, rfl⟩ := List.mem_map.mp hpiece
        obtain ⟨b, tail, hcons⟩ := List.exists_cons_of_ne_nil (hreads pair hpair).ne_nil
        exact ⟨b, tail, hcons, (hreads pair hpair).start b (by rw [hcons]; rfl)⟩
    have hitems := parse_items_of_reads hempty hreads hfuel [] rest
    rw [hcons] at hitems ⊢
    rw [List.cons_append, List.append_assoc, List.singleton_append, hopen,
      List.cons_append, skip_json_space_of_head hspace, consume_char_of_ne hclose]
    exact hitems

/-! ### Objects -/

/-- One entry of an object: the key and the text of the value. -/
def entry_text (entry : Bytes × Bytes × Json numbers.Double) : Bytes :=
  quote_json_string entry.1 ++ 58 :: entry.2.1

/-- One entry, up to what stands behind it. -/
theorem parse_entries_step {fuel : Nat} {entries : List (Bytes × Json numbers.Double)}
    {key : Bytes} (hvalue : Reads numbers text value) (hkey : key ∉ entries.map Prod.fst)
    (hlt : text.length < fuel) {more : Bytes} (hmore : Stops more)
    {r : Json numbers.Double × Bytes}
    (h : (match consume_char '\x7d' more with
      | some rest => .ok (.object (entries ++ [(key, value)]), rest)
      | none => do
        let (_, rest) ← expect ',' more
        parse_entries numbers fuel (entries ++ [(key, value)]) rest) = Except.ok r) :
    parse_entries numbers (fuel + 1) entries (entry_text (key, text, value) ++ more) = .ok r := by
  have hlookup : (entries.lookup key).isSome = false := by
    rw [Bool.eq_false_iff]
    intro hsome
    obtain ⟨entry, hentry, heq⟩ := List.lookup_isSome_iff.mp hsome
    exact hkey (List.mem_map.mpr ⟨entry, hentry, (by simpa using heq : key = entry.1).symm⟩)
  have htext : entry_text (key, text, value) ++ more =
      quote_json_string key ++ 58 :: (text ++ more) := by
    rw [entry_text, List.append_assoc]
    rfl
  have hquote : quote_json_string key ++ 58 :: (text ++ more) =
      34 :: (key.flatMap quote_byte ++ 34 :: 58 :: (text ++ more)) := by
    rw [quote_json_string, List.append_assoc, List.append_assoc]
    rfl
  have hskip : Json.skip_json_space (quote_json_string key ++ 58 :: (text ++ more)) =
      quote_json_string key ++ 58 :: (text ++ more) := by
    rw [hquote]
    exact skip_json_space_of_head rfl _
  rw [htext, parse_entries]
  dsimp only
  rw [hskip, if_neg (by rw [hquote]; simp)]
  refine Except.bind_eq_ok.mpr ⟨_, parse_string_quote key _, ?_⟩
  refine Except.bind_eq_ok.mpr ⟨((), text ++ more), rfl, ?_⟩
  dsimp only
  rw [hvalue.skip_json_space]
  refine Except.bind_eq_ok.mpr ⟨_, hvalue.parse_value hlt hmore, ?_⟩
  dsimp only
  rw [if_neg (by simp [hlookup]), hmore.skip_json_space]
  exact h

/-- The entries of an object, with the brace behind them, are read one after the other. None of
their keys may be among those that have been read already, as the parser refuses a second one. -/
theorem parse_entries_of_reads {triples : List (Bytes × Bytes × Json numbers.Double)}
    (hne : triples ≠ []) (hreads : ∀ t ∈ triples, Reads numbers t.2.1 t.2.2) {fuel : Nat}
    (hfuel : (comma_separated (triples.map entry_text)).length + 1 < fuel)
    {entries : List (Bytes × Json numbers.Double)}
    (hkeys : (entries.map Prod.fst ++ triples.map Prod.fst).Nodup) (rest : Bytes) :
    parse_entries numbers fuel entries (comma_separated (triples.map entry_text) ++ 125 :: rest) =
      .ok (.object (entries ++ triples.map fun t => (t.1, t.2.2)), rest) := by
  induction triples generalizing fuel entries with
  | nil => exact absurd rfl hne
  | cons t triples ih =>
    obtain ⟨fuel, rfl⟩ := Nat.exists_eq_succ_of_ne_zero (Nat.ne_of_gt (Nat.zero_lt_of_lt hfuel))
    obtain ⟨key, text, value⟩ := t
    have hvalue : Reads numbers text value := hreads _ List.mem_cons_self
    have hkey : key ∉ entries.map Prod.fst := by
      rw [List.nodup_append] at hkeys
      exact fun hmem => hkeys.2.2 key hmem key List.mem_cons_self rfl
    have hlength : text.length < (entry_text (key, text, value)).length := by
      rw [entry_text, List.length_append, List.length_cons]
      dsimp only
      omega
    by_cases hlast : triples = []
    -- the last entry, with the brace behind it
    · subst hlast
      have htext : comma_separated ([(key, text, value)].map entry_text) =
          entry_text (key, text, value) := by simp [comma_separated]
      rw [htext] at hfuel ⊢
      exact parse_entries_step hvalue hkey (by omega) (stops_cons (by decide)) rfl
    -- another one, whose key then stands among those that have been read
    · rw [List.map_cons, comma_separated_cons _ (by simpa using hlast)] at hfuel ⊢
      rw [List.length_append, List.length_cons] at hfuel
      rw [List.append_assoc, List.cons_append]
      refine parse_entries_step hvalue hkey (by omega) (stops_cons (by decide)) ?_
      rw [consume_char_of_ne (by decide)]
      refine Except.bind_eq_ok.mpr
        ⟨((), comma_separated (triples.map entry_text) ++ 125 :: rest), rfl, ?_⟩
      have hfuel' : (comma_separated (triples.map entry_text)).length + 1 < fuel := by omega
      have hkeys' : ((entries ++ [(key, value)]).map Prod.fst ++ triples.map Prod.fst).Nodup := by
        rw [List.map_append, List.append_assoc]
        exact hkeys
      have hmore := ih hlast (fun t ht => hreads t (List.mem_cons_of_mem _ ht)) hfuel' hkeys'
      rw [List.append_assoc] at hmore
      exact hmore

/-- **An object out of the texts of its values**, with distinct keys, in whatever order: what is
read has the entries in the order in which they were written. -/
theorem reads_object (triples : List (Bytes × Bytes × Json numbers.Double))
    (hreads : ∀ t ∈ triples, Reads numbers t.2.1 t.2.2) (hkeys : (triples.map Prod.fst).Nodup) :
    Reads numbers (ascii ['\x7b'] ++ comma_separated (triples.map entry_text) ++ ascii ['\x7d'])
      (.object (triples.map fun t => (t.1, t.2.2))) := by
  have htext : ascii ['\x7b'] ++ comma_separated (triples.map entry_text) ++ ascii ['\x7d'] =
      123 :: (comma_separated (triples.map entry_text) ++ [125]) := by simp [ascii]
  rw [htext]
  refine reads_of_cons rfl (by decide) fun {fuel rest} hfuel hrest => ?_
  rw [List.length_append, List.length_singleton] at hfuel
  have hopen : ∀ entries : Bytes, Json.parse_value numbers (fuel + 1) (123 :: entries) =
      match consume_char '\x7d' (Json.skip_json_space entries) with
      | some rest => .ok (.object [], rest)
      | none => parse_entries numbers fuel [] (Json.skip_json_space entries) := fun _ => rfl
  by_cases hempty : triples = []
  · subst hempty
    rfl
  · obtain ⟨b, tail, hcons, rfl⟩ := exists_cons_comma_separated
      (triples.map entry_text) (P := fun b => b = 34)
      (by simpa using hempty) fun piece hpiece => by
        obtain ⟨t, -, rfl⟩ := List.mem_map.mp hpiece
        exact ⟨34, _, rfl, rfl⟩
    have hkeys' : (([] : List (Bytes × Json numbers.Double)).map Prod.fst ++
        triples.map Prod.fst).Nodup := hkeys
    have hentries := parse_entries_of_reads hempty hreads hfuel hkeys' rest
    rw [hcons] at hentries ⊢
    rw [List.cons_append, List.append_assoc, List.singleton_append, hopen,
      List.cons_append, skip_json_space_of_head rfl, consume_char_of_ne (by decide)]
    exact hentries

/-! ### The printer -/

/-- The order of the entries that `dump` writes. -/
def key_le {α : Type} (a b : Bytes × α) : Bool := a.1 ≤ b.1

/-- What the text of a number is read as. -/
def number_value (numbers : NumberText) (text : Bytes) : Json numbers.Double :=
  (Json.parse numbers text).toOption.getD .null

theorem number_value_of_reads (h : Reads numbers text value) : number_value numbers text = value := by
  rw [number_value, Json.parse_of_reads h]
  rfl

mutual

/-- The value that is read where this one was printed: the entries of every object are in
the order of their keys, and a double is what its digits are read as, which is an integer
when they are those of a whole number. -/
def reread (numbers : NumberText) : Json numbers.Double → Json numbers.Double
  | .array items => .array (reread_items numbers items)
  | .object entries => .object ((reread_entries numbers entries).mergeSort key_le)
  | .number value => number_value numbers (numbers.to_chars value)
  | .null => .null
  | .boolean value => .boolean value
  | .integer value => .integer value
  | .string value => .string value

def reread_items (numbers : NumberText) : List (Json numbers.Double) → List (Json numbers.Double)
  | [] => []
  | item :: items => reread numbers item :: reread_items numbers items

def reread_entries (numbers : NumberText) :
    List (Bytes × Json numbers.Double) → List (Bytes × Json numbers.Double)
  | [] => []
  | (key, value) :: entries => (key, reread numbers value) :: reread_entries numbers entries

end

mutual

/-- A value of the source's type: the integers are those of the machine, and the keys of an object
are distinct. What the library prints of a double must be the text of a number, which it is but for
infinities and for what is no number. -/
def Printable (numbers : NumberText) : Json numbers.Double → Prop
  | .integer value => -2 ^ 63 ≤ value ∧ value < 2 ^ 63
  | .number value => Reads numbers (numbers.to_chars value)
      (number_value numbers (numbers.to_chars value))
  | .array items => PrintableItems numbers items
  | .object entries => (entries.map Prod.fst).Nodup ∧ PrintableEntries numbers entries
  | _ => True

def PrintableItems (numbers : NumberText) : List (Json numbers.Double) → Prop
  | [] => True
  | item :: items => Printable numbers item ∧ PrintableItems numbers items

def PrintableEntries (numbers : NumberText) : List (Bytes × Json numbers.Double) → Prop
  | [] => True
  | (_, value) :: entries => Printable numbers value ∧ PrintableEntries numbers entries

end

theorem reread_items_eq_map (items : List (Json numbers.Double)) :
    reread_items numbers items = items.map (reread numbers) := by
  induction items with
  | nil => rfl
  | cons item items ih => rw [reread_items, ih, List.map_cons]

theorem reread_entries_eq_map (entries : List (Bytes × Json numbers.Double)) :
    reread_entries numbers entries = entries.map fun e => (e.1, reread numbers e.2) := by
  induction entries with
  | nil => rfl
  | cons e entries ih => rw [reread_entries, ih, List.map_cons]

theorem dump_items_eq_map (items : List (Json numbers.Double)) :
    dump_items numbers items = items.map (dump numbers) := by
  induction items with
  | nil => rfl
  | cons item items ih => rw [dump_items, ih, List.map_cons]

theorem dump_entries_eq_map (entries : List (Bytes × Json numbers.Double)) :
    dump_entries numbers entries = entries.map fun e => (e.1, dump numbers e.2) := by
  induction entries with
  | nil => rfl
  | cons e entries ih => rw [dump_entries, ih, List.map_cons]

theorem mergeSort_map_key {α β : Type} (f : α → β) (l : List (Bytes × α)) :
    (l.map fun e => (e.1, f e.2)).mergeSort key_le =
      (l.mergeSort key_le).map fun e => (e.1, f e.2) :=
  (List.map_mergeSort (r := key_le) (s := key_le) (f := fun e => (e.1, f e.2))
    fun _ _ _ _ => rfl).symm

/-- An object is written in the order of its keys. -/
theorem reads_dump_object {entries : List (Bytes × Json numbers.Double)}
    (hkeys : (entries.map Prod.fst).Nodup)
    (h : ∀ e ∈ entries, Reads numbers (dump numbers e.2) (reread numbers e.2)) :
    Reads numbers (dump numbers (.object entries)) (reread numbers (.object entries)) := by
  have hperm := List.mergeSort_perm entries key_le
  let triples := (entries.mergeSort key_le).map fun e => (e.1, dump numbers e.2, reread numbers e.2)
  have htexts : ((dump_entries numbers entries).mergeSort fun a b => decide (a.1 ≤ b.1)).map
      (fun (key, text) => quote_json_string key ++ ascii [':'] ++ text) =
        triples.map entry_text := by
    have hsort := mergeSort_map_key (dump numbers) entries
    rw [dump_entries_eq_map]
    refine (congrArg (List.map _) hsort).trans ?_
    rw [List.map_map, List.map_map]
    refine List.map_congr_left fun e _ => ?_
    simp [entry_text, ascii]
  have hvalues : (reread_entries numbers entries).mergeSort key_le =
      triples.map fun t => (t.1, t.2.2) := by
    rw [reread_entries_eq_map, mergeSort_map_key, List.map_map]
    rfl
  have hreads : ∀ t ∈ triples, Reads numbers t.2.1 t.2.2 := by
    intro t ht
    obtain ⟨e, he, rfl⟩ := List.mem_map.mp ht
    exact h e (hperm.subset he)
  have hnodup : (triples.map Prod.fst).Nodup := by
    rw [List.map_map]
    exact (hperm.map _).nodup_iff.mpr hkeys
  rw [dump, reread, hvalues]
  dsimp only
  rw [htexts]
  exact reads_object triples hreads hnodup

mutual

/-- **What the printer writes is read back**, with the keys in order and the doubles as their digits
say. The recursion is that of the printer, with one case for each kind of value and an own one for
the items and the entries. -/
theorem reads_dump : ∀ value : Json numbers.Double, Printable numbers value →
    Reads numbers (dump numbers value) (reread numbers value)
  | .null, _ => by
    rw [dump, reread]
    exact reads_null
  | .boolean true, _ => by
    rw [dump, reread]
    exact reads_boolean true
  | .boolean false, _ => by
    rw [dump, reread]
    exact reads_boolean false
  | .integer value, h => by
    rw [Printable] at h
    rw [dump, reread]
    exact reads_integer h.1 h.2
  | .number value, h => by
    rw [Printable] at h
    rw [dump, reread]
    exact h
  | .string value, _ => by
    rw [dump, reread]
    exact reads_string value
  | .array items, h => by
    rw [Printable] at h
    have hitems := reads_dump_items items h
    rw [dump, reread, dump_items_eq_map, reread_items_eq_map]
    have harray := reads_array (fun pair
        (hpair : pair ∈ items.map fun v => (dump numbers v, reread numbers v)) => by
        obtain ⟨v, hv, rfl⟩ := List.mem_map.mp hpair
        exact hitems v hv)
    rw [List.map_map, List.map_map] at harray
    exact harray
  | .object entries, h => by
    rw [Printable] at h
    exact reads_dump_object h.1 (reads_dump_entries entries h.2)

theorem reads_dump_items : ∀ items : List (Json numbers.Double), PrintableItems numbers items →
    ∀ v ∈ items, Reads numbers (dump numbers v) (reread numbers v)
  | [], _, v, hv => absurd hv List.not_mem_nil
  | item :: items, h, v, hv => by
    rw [PrintableItems] at h
    rcases List.mem_cons.mp hv with hv | hv
    · rw [hv]
      exact reads_dump item h.1
    · exact reads_dump_items items h.2 v hv

theorem reads_dump_entries : ∀ entries : List (Bytes × Json numbers.Double),
    PrintableEntries numbers entries →
      ∀ e ∈ entries, Reads numbers (dump numbers e.2) (reread numbers e.2)
  | [], _, e, he => absurd he List.not_mem_nil
  | (key, value) :: entries, h, e, he => by
    rw [PrintableEntries] at h
    rcases List.mem_cons.mp he with he | he
    · rw [he]
      exact reads_dump value h.1
    · exact reads_dump_entries entries h.2 e he

end

theorem lookup_eq_some_iff_mem {α : Type} {entries : List (Bytes × α)}
    (h : (entries.map Prod.fst).Nodup) {key : Bytes} {value : α} :
    entries.lookup key = some value ↔ (key, value) ∈ entries := by
  induction entries with
  | nil => simp
  | cons e entries ih =>
    rw [List.map_cons, List.nodup_cons] at h
    rw [List.lookup_cons, List.mem_cons]
    by_cases hkey : key = e.1
    · subst hkey
      rw [beq_self_eq_true]
      constructor
      · rintro heq
        exact Or.inl (Prod.ext rfl (Option.some.inj heq).symm)
      · rintro (heq | hmem)
        · rw [← heq]
        · exact absurd (List.mem_map_of_mem (f := Prod.fst) hmem) h.1
    · rw [beq_eq_false_iff_ne.mpr hkey]
      refine (ih h.2).trans ⟨Or.inr, ?_⟩
      rintro (heq | hmem)
      · exact absurd (congrArg Prod.fst heq) hkey
      · exact hmem

/-- Sorting the entries of an object loses none: a key is found after the reading back exactly if it
was there before, and its value is the one that is read back. -/
theorem find_reread {entries : List (Bytes × Json numbers.Double)}
    (hkeys : (entries.map Prod.fst).Nodup) (key : Bytes) :
    (reread numbers (.object entries)).find key = (entries.lookup key).map (reread numbers) := by
  have hperm := List.mergeSort_perm (reread_entries numbers entries) key_le
  have hnodup : (((reread_entries numbers entries).mergeSort key_le).map Prod.fst).Nodup := by
    rw [(hperm.map _).nodup_iff, reread_entries_eq_map, List.map_map]
    exact hkeys
  ext value
  rw [reread, find, lookup_eq_some_iff_mem hnodup, hperm.mem_iff, reread_entries_eq_map,
    List.mem_map, Option.map_eq_some_iff]
  constructor
  · rintro ⟨e, he, heq⟩
    obtain ⟨rfl, rfl⟩ := Prod.mk.inj heq
    exact ⟨e.2, (lookup_eq_some_iff_mem hkeys).mpr he, rfl⟩
  · rintro ⟨v, hv, rfl⟩
    exact ⟨(key, v), (lookup_eq_some_iff_mem hkeys).mp hv, rfl⟩

/-! ### What the parser returns -/

theorem printableItems_iff {items : List (Json numbers.Double)} :
    PrintableItems numbers items ↔ ∀ item ∈ items, Printable numbers item := by
  induction items with
  | nil => exact ⟨fun _ => nofun, fun _ => trivial⟩
  | cons item items ih => rw [PrintableItems, ih, List.forall_mem_cons]

theorem printableEntries_iff {entries : List (Bytes × Json numbers.Double)} :
    PrintableEntries numbers entries ↔ ∀ e ∈ entries, Printable numbers e.2 := by
  induction entries with
  | nil => exact ⟨fun _ => nofun, fun _ => trivial⟩
  | cons e entries ih => rw [PrintableEntries, ih, List.forall_mem_cons]

theorem consume_char_eq_some {c : Char} {rest after : Bytes} :
    consume_char c rest = some after ↔ rest = c.toNat.toUInt8 :: after := by
  rw [consume_char, consume]
  constructor
  · intro h
    split at h
    · rename_i hprefix
      obtain ⟨t, rfl⟩ := hprefix
      obtain rfl := Option.some.inj h
      rfl
    · exact absurd h (by simp)
  · rintro rfl
    rw [if_pos ⟨after, rfl⟩]
    rfl

theorem of_digit_run {message : String} {rest digits after : Bytes}
    (h : digit_run message rest = .ok (digits, after)) :
    digits ≠ [] ∧ (∀ b ∈ digits, is_digit b = true) ∧ rest = digits ++ after := by
  rw [digit_run] at h
  split at h
  · exact absurd h (by simp [fail])
  · rename_i hne
    obtain ⟨rfl, rfl⟩ := Prod.mk.inj (Except.ok.inj h)
    exact ⟨hne, fun _ hb => List.mem_takeWhile_imp hb, (List.takeWhile_append_dropWhile).symm⟩

section Parts

variable {α : Type} {k : Bytes × Bytes → Except Failure α} {r : α} {rest : Bytes}

theorem of_bind_minus
    (h : (match consume_char '-' rest with
      | some after => if after = [] then fail after "incomplete number" >>= k
        else Except.ok (ascii ['-'], after) >>= k
      | none => Except.ok ([], rest) >>= k) = .ok r) :
    ∃ (negative : Bool) (after : Bytes), rest = (if negative then ascii ['-'] else []) ++ after ∧
      k (if negative then ascii ['-'] else [], after) = .ok r := by
  split at h
  · rename_i after hminus
    split at h
    · exact absurd h (by simp [fail])
    · exact ⟨true, after, consume_char_eq_some.mp hminus, h⟩
  · exact ⟨false, rest, rfl, h⟩

theorem of_bind_fraction
    (h : (match consume_char '.' rest with
      | some after => do
        let (digits, after) ← digit_run "fraction requires digits" after
        Except.ok (ascii ['.'] ++ digits, after) >>= k
      | none => Except.ok ([], rest) >>= k) = .ok r) :
    ∃ fraction after, IsFraction fraction ∧ rest = fraction ++ after ∧
      k (fraction, after) = .ok r := by
  split at h
  · rename_i behind hpoint
    obtain rfl := consume_char_eq_some.mp hpoint
    obtain ⟨⟨digits, after⟩, hdigits, hk⟩ := Except.bind_eq_ok.mp h
    obtain ⟨hne, hall, rfl⟩ := of_digit_run hdigits
    exact ⟨46 :: digits, after, Or.inr ⟨digits, hne, hall, rfl⟩, rfl, hk⟩
  · exact ⟨[], rest, Or.inl rfl, rfl, h⟩

theorem of_bind_exponent
    (h : (match rest with
      | e :: after =>
        if e = 101 ∨ e = 69 then
          match match after with
            | s :: after' => if s = 43 ∨ s = 45 then ([s], after') else ([], after)
            | [] => ([], after) with
          | (sign, after) => do
            let (digits, after) ← digit_run "exponent requires digits" after
            Except.ok (e :: sign ++ digits, after) >>= k
        else Except.ok ([], rest) >>= k
      | [] => Except.ok ([], rest) >>= k) = .ok r) :
    ∃ exponent after, IsExp exponent ∧ rest = exponent ++ after ∧ k (exponent, after) = .ok r := by
  split at h
  · rename_i mark behind
    split at h
    · rename_i hmark
      -- the sign, which may be missing
      have hsplit : ∃ sign after, (sign = [] ∨ sign = [43] ∨ sign = [45]) ∧
          behind = sign ++ after ∧ (do
            let (digits, after) ← digit_run "exponent requires digits" after
            Except.ok (mark :: sign ++ digits, after) >>= k) = .ok r := by
        cases behind with
        | nil => exact ⟨[], [], Or.inl rfl, rfl, h⟩
        | cons s after' =>
          dsimp only at h
          by_cases hs : s = 43 ∨ s = 45
          · rw [if_pos hs] at h
            refine ⟨[s], after', Or.inr ?_, rfl, h⟩
            rcases hs with rfl | rfl
            · exact Or.inl rfl
            · exact Or.inr rfl
          · rw [if_neg hs] at h
            exact ⟨[], s :: after', Or.inl rfl, rfl, h⟩
      obtain ⟨sign, unsigned, hsign, rfl, hrun⟩ := hsplit
      obtain ⟨⟨digits, after⟩, hdigits, hk⟩ := Except.bind_eq_ok.mp hrun
      obtain ⟨hne, hall, rfl⟩ := of_digit_run hdigits
      refine ⟨mark :: sign ++ digits, after,
        Or.inr ⟨mark, sign, digits, hmark, hsign, hne, hall, rfl⟩, ?_, hk⟩
      rw [List.cons_append, List.cons_append, List.append_assoc]
    · exact ⟨[], _, Or.inl rfl, rfl, h⟩
  · exact ⟨[], [], Or.inl rfl, rfl, h⟩

end Parts

theorem from_chars_range {negative : Bool} {digits : Bytes} {n : Int}
    (h : from_chars negative digits = some n) : -2 ^ 63 ≤ n ∧ n < 2 ^ 63 := by
  rw [from_chars, Option.ite_none_right_eq_some] at h
  obtain ⟨hrange, hn⟩ := h
  obtain rfl := Option.some.inj hn
  exact hrange

/-- A number that is read is an integer of the machine or a double. -/
theorem parse_number_eq_ok {rest more : Bytes}
    (h : parse_number numbers rest = .ok (value, more)) :
    (∃ n, value = .integer n ∧ -2 ^ 63 ≤ n ∧ n < 2 ^ 63) ∨ ∃ d, value = .number d := by
  have hrange : ∀ (negative : Bool) (digits : Bytes) n, from_chars negative digits = some n →
      -2 ^ 63 ≤ n ∧ n < 2 ^ 63 := fun _ _ _ h => from_chars_range h
  rw [parse_number] at h
  -- the conversion is not to be computed here
  generalize from_chars = convert at h hrange
  obtain ⟨negative, after, -, h⟩ := of_bind_minus h
  obtain ⟨⟨digits, after⟩, -, h⟩ := Except.bind_eq_ok.mp h
  obtain ⟨fraction, after, -, -, h⟩ := of_bind_fraction h
  obtain ⟨exponent, after, -, -, h⟩ := of_bind_exponent h
  dsimp only at h
  split at h
  · next n hn =>
    obtain ⟨rfl, -⟩ := Prod.mk.inj (Except.ok.inj h)
    split at hn
    · exact Or.inl ⟨n, rfl, hrange _ _ n hn⟩
    · exact absurd hn nofun
  · split at h
    · obtain ⟨rfl, -⟩ := Prod.mk.inj (Except.ok.inj h)
      exact Or.inr ⟨_, rfl⟩
    · exact absurd h nofun

theorem expect_literal_eq_ok {literal : List Char} {v : Json numbers.Double} {rest more : Bytes}
    (h : expect_literal literal v rest = .ok (value, more)) : value = v := by
  rw [expect_literal] at h
  split at h
  · exact (Prod.mk.inj (Except.ok.inj h)).1.symm
  · exact absurd h nofun

/-- A new key keeps the keys distinct. -/
theorem nodup_keys_append {entries : List (Bytes × Json numbers.Double)} {key : Bytes}
    (hkeys : (entries.map Prod.fst).Nodup) (hfresh : ¬(entries.lookup key).isSome = true)
    (item : Json numbers.Double) : ((entries ++ [(key, item)]).map Prod.fst).Nodup := by
  rw [List.map_append, List.nodup_append]
  refine ⟨hkeys, List.nodup_singleton _, ?_⟩
  rintro a ha b hb rfl
  obtain rfl := List.mem_singleton.mp hb
  obtain ⟨e, he, rfl⟩ := List.mem_map.mp ha
  exact hfresh (List.lookup_isSome_iff.mpr ⟨e, he, beq_self_eq_true _⟩)

/-- **Every value that is parsed can be printed**, when the library prints doubles as numbers. So
parsing and printing again is always possible; the keys that are parsed are distinct because the
parser refuses others. -/
theorem printable_of_parse_value
    (hnumbers : ∀ d, Reads numbers (numbers.to_chars d)
      (number_value numbers (numbers.to_chars d))) (fuel : Nat) :
    (∀ {rest value more}, parse_value numbers fuel rest = .ok (value, more) →
      Printable numbers value) ∧
    (∀ {items rest value more}, PrintableItems numbers items →
      parse_items numbers fuel items rest = .ok (value, more) → Printable numbers value) ∧
    (∀ {entries rest value more}, (entries.map Prod.fst).Nodup →
      PrintableEntries numbers entries →
        parse_entries numbers fuel entries rest = .ok (value, more) → Printable numbers value) := by
  induction fuel with
  | zero =>
    refine ⟨fun {rest value more} h => ?_, fun {items rest value more} _ h => ?_,
      fun {entries rest value more} _ _ h => ?_⟩
    · rw [parse_value] at h
      exact absurd h nofun
    · rw [parse_items] at h
      exact absurd h nofun
    · rw [parse_entries] at h
      exact absurd h nofun
  | succ fuel ih =>
    obtain ⟨ihvalue, ihitems, ihentries⟩ := ih
    refine ⟨fun {rest value more} h => ?_, fun {items rest value more} hitems h => ?_,
      fun {entries rest value more} hkeys hentries h => ?_⟩
    -- a value: strings, and numbers by what the library prints, are printable anyway
    · rw [parse_value.eq_def] at h
      dsimp only at h
      split at h
      · exact absurd h nofun
      split_ifs at h with hnull htrue hfalse hstring harray hobject hnumber
      · rw [expect_literal_eq_ok h]
        trivial
      · rw [expect_literal_eq_ok h]
        trivial
      · rw [expect_literal_eq_ok h]
        trivial
      · cases hs : parse_string _ with
        | error e =>
          rw [hs] at h
          exact absurd h nofun
        | ok s =>
          rw [hs] at h
          obtain ⟨rfl, -⟩ := Prod.mk.inj (Except.ok.inj h)
          trivial
      · obtain ⟨⟨_, after⟩, -, h⟩ := Except.bind_eq_ok.mp h
        dsimp only at h
        split at h
        · obtain ⟨rfl, -⟩ := Prod.mk.inj (Except.ok.inj h)
          trivial
        · refine ihitems ?_ h
          trivial
      · obtain ⟨⟨_, after⟩, -, h⟩ := Except.bind_eq_ok.mp h
        dsimp only at h
        split at h
        · obtain ⟨rfl, -⟩ := Prod.mk.inj (Except.ok.inj h)
          exact ⟨List.nodup_nil, trivial⟩
        · refine ihentries ?_ ?_ h
          · exact List.nodup_nil
          · trivial
      · rcases parse_number_eq_ok h with ⟨n, rfl, hlow, hhigh⟩ | ⟨d, rfl⟩
        · exact ⟨hlow, hhigh⟩
        · exact hnumbers d
      · exact absurd h nofun
    · rw [parse_items] at h
      obtain ⟨⟨item, after⟩, hitem, h⟩ := Except.bind_eq_ok.mp h
      -- the items so far and this one
      have hmore : PrintableItems numbers (items ++ [item]) := by
        rw [printableItems_iff] at hitems ⊢
        rw [List.forall_mem_append]
        exact ⟨hitems, List.forall_mem_singleton.mpr (ihvalue hitem)⟩
      dsimp only at h
      split at h
      · obtain ⟨rfl, -⟩ := Prod.mk.inj (Except.ok.inj h)
        exact hmore
      · obtain ⟨⟨_, after⟩, -, h⟩ := Except.bind_eq_ok.mp h
        exact ihitems hmore h
    · rw [parse_entries] at h
      dsimp only at h
      split at h
      · exact absurd h nofun
      obtain ⟨⟨key, after⟩, -, h⟩ := Except.bind_eq_ok.mp h
      obtain ⟨⟨_, after⟩, -, h⟩ := Except.bind_eq_ok.mp h
      obtain ⟨⟨item, after⟩, hitem, h⟩ := Except.bind_eq_ok.mp h
      dsimp only at h
      split at h
      · exact absurd h nofun
      next hfresh =>
        -- the parser has just refused a key that is there already
        have hkeys' := nodup_keys_append hkeys hfresh item
        have hmore : PrintableEntries numbers (entries ++ [(key, item)]) := by
          rw [printableEntries_iff] at hentries ⊢
          rw [List.forall_mem_append]
          exact ⟨hentries, List.forall_mem_singleton.mpr (ihvalue hitem)⟩
        split at h
        · obtain ⟨rfl, -⟩ := Prod.mk.inj (Except.ok.inj h)
          exact ⟨hkeys', hmore⟩
        · obtain ⟨⟨_, after⟩, -, h⟩ := Except.bind_eq_ok.mp h
          exact ihentries hkeys' hmore h

theorem printable_of_parse
    (hnumbers : ∀ d, Reads numbers (numbers.to_chars d)
      (number_value numbers (numbers.to_chars d))) {source : Bytes}
    (h : parse numbers source = .ok value) : Printable numbers value := by
  rw [parse] at h
  obtain ⟨⟨v, rest⟩, hvalue, h⟩ := Except.bind_eq_ok.mp h
  dsimp only at h
  split at h
  · obtain rfl := Except.ok.inj h
    exact (printable_of_parse_value hnumbers _).1 hvalue
  · exact absurd h nofun

end Json

end Qwen38
