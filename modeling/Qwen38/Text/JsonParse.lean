import Qwen38.Text.JsonGrammar

/-!
# The parser accepts the grammar

`Qwen38.Json.parse` returns a value for a text exactly when the text is a document of that
value (`Qwen38.Json.parse_eq_ok_iff`). What a parsing function returns is in the grammar, by
induction on the fuel; and what is in the grammar is returned, with what comes behind the
text left over, when that does not make a number longer and the fuel is more than the text.

The strings of a document in UTF-8 are in UTF-8 (`Qwen38.Json.utf8_of_document`).
-/

namespace Qwen38

namespace Json

/-! ### Characters -/

theorem expect_eq_ok {c : Char} {rest after : Bytes} {u : Unit} :
    expect c rest = .ok (u, after) ↔ rest = c.toNat.toUInt8 :: after := by
  rw [← consume_char_eq_some, expect]
  cases consume_char c rest with
  | none => simp [fail]
  | some rest => simp

theorem skip_json_space_eq (rest : Bytes) :
    ∃ space, IsSpace space ∧ rest = space ++ skip_json_space rest :=
  ⟨rest.takeWhile is_json_space, fun _ hb => List.mem_takeWhile_imp hb,
    (List.takeWhile_append_dropWhile).symm⟩

/-- White space is skipped in front of what is none. -/
theorem IsSpace.skip {space rest : Bytes} (h : IsSpace space)
    (hrest : ∀ b ∈ rest.head?, is_json_space b = false) : skip_json_space (space ++ rest) = rest := by
  rw [skip_json_space, List.dropWhile_append_of_pos h]
  cases rest with
  | nil => rfl
  | cons b rest => exact skip_json_space_of_head (hrest b rfl) rest

/-! ### Strings -/

theorem toNat_le (c : Char) : c.toNat < 0xD800 ∨ 0xDFFF < c.toNat ∧ c.toNat < 0x110000 := c.valid

/-- **The bytes of a code point** are its encoding. -/
theorem utf8_of_codepoint_toNat (c : Char) :
    utf8_of_codepoint c.toNat = String.utf8EncodeChar c := by
  have hvalid := toNat_le c
  have hval : c.val.toNat = c.toNat := rfl
  rw [utf8_of_codepoint, String.utf8EncodeChar, hval]
  generalize c.toNat = n at hvalid
  by_cases h1 : n ≤ 0x7F
  · rw [if_pos h1, if_pos h1]
  · rw [if_neg h1, if_neg h1]
    by_cases h2 : n ≤ 0x7FF
    · rw [if_pos h2, if_pos h2, Nat.mod_eq_of_lt (a := n / 64) (by omega)]
      simp only [Nat.add_comm]
    · rw [if_neg h2, if_neg h2]
      by_cases h3 : n ≤ 0xFFFF
      · rw [if_pos h3, if_pos h3, Nat.mod_eq_of_lt (a := n / 4096) (by omega)]
        simp only [Nat.add_comm]
      · rw [if_neg h3, if_neg h3, Nat.mod_eq_of_lt (a := n / 262144) (by omega)]
        simp only [Nat.add_comm]

theorem hex_digit_lt {b : UInt8} {n : Nat} (h : hex_digit b = some n) : n < 16 := by
  rw [hex_digit] at h
  simp only [UInt8.le_iff_toNat_le] at h
  split_ifs at h with h1 h2 h3
  all_goals
    obtain rfl := Option.some.inj h
    simp at *
    omega

theorem parse_hex4_eq_ok {rest after : Bytes} {value : Nat} :
    parse_hex4 rest = .ok (value, after) ↔
      ∃ digits, IsHex4 digits value ∧ rest = digits ++ after := by
  constructor
  · intro h
    rw [parse_hex4] at h
    split at h
    · exact absurd h (by simp [fail])
    · rename_i hlength
      obtain ⟨a, rest, rfl⟩ := List.exists_cons_of_length_pos (show 0 < rest.length by omega)
      rw [List.length_cons] at hlength
      obtain ⟨b, rest, rfl⟩ := List.exists_cons_of_length_pos (show 0 < rest.length by omega)
      rw [List.length_cons] at hlength
      obtain ⟨c, rest, rfl⟩ := List.exists_cons_of_length_pos (show 0 < rest.length by omega)
      rw [List.length_cons] at hlength
      obtain ⟨d, rest, rfl⟩ := List.exists_cons_of_length_pos (show 0 < rest.length by omega)
      simp only [hex_digits] at h
      cases ha : hex_digit a with
      | none => simp [ha, fail] at h
      | some p =>
        cases hb : hex_digit b with
        | none => simp [ha, hb, fail] at h
        | some q =>
          cases hc : hex_digit c with
          | none => simp [ha, hb, hc, fail] at h
          | some r =>
            cases hd : hex_digit d with
            | none => simp [ha, hb, hc, hd, fail] at h
            | some s =>
              simp only [ha, hb, hc, hd] at h
              obtain ⟨hvalue, rfl⟩ := Prod.mk.inj (Except.ok.inj h)
              refine ⟨[a, b, c, d], ⟨a, b, c, d, p, q, r, s, rfl, ha, hb, hc, hd, ?_⟩, rfl⟩
              omega
  · rintro ⟨digits, ⟨a, b, c, d, p, q, r, s, rfl, ha, hb, hc, hd, rfl⟩, rfl⟩
    rw [parse_hex4, if_neg (by simp)]
    simp only [hex_digits, List.cons_append, List.nil_append, ha, hb, hc, hd]
    rw [Nat.zero_mul, Nat.zero_add]

theorem IsHex4.lt {digits : Bytes} {value : Nat} (h : IsHex4 digits value) : value < 0x10000 := by
  obtain ⟨a, b, c, d, p, q, r, s, -, ha, hb, hc, hd, rfl⟩ := h
  have hp := hex_digit_lt ha
  have hq := hex_digit_lt hb
  have hr := hex_digit_lt hc
  have hs := hex_digit_lt hd
  omega

/-- A character by its number. -/
theorem exists_char {n : Nat} (h : n < 0xD800 ∨ 0xDFFF < n ∧ n < 0x110000) :
    ∃ c : Char, c.toNat = n := by
  have hvalid : n.isValidChar := h
  refine ⟨Char.ofNatAux n hvalid, ?_⟩
  change (UInt32.ofNatLT n _).toNat = n
  exact UInt32.toNat_ofNatLT

/-- The text of an escape behind its `u`. -/
inductive IsCodepoint : Bytes → Char → Prop
  | codepoint {digits : Bytes} {c : Char} : IsHex4 digits c.toNat → IsCodepoint digits c
  | pair {high_digits low_digits : Bytes} {high low : Nat} {c : Char} :
      IsHex4 high_digits high → IsHex4 low_digits low →
      0xD800 ≤ high → high ≤ 0xDBFF → 0xDC00 ≤ low → low ≤ 0xDFFF →
      c.toNat = 0x10000 + (high - 0xD800) * 0x400 + (low - 0xDC00) →
      IsCodepoint (high_digits ++ ascii ['\\', 'u'] ++ low_digits) c

theorem IsCodepoint.body {text : Bytes} {c : Char} (h : IsCodepoint text c) {body value : Bytes}
    (hbody : StringBody body value) :
    StringBody (ascii ['\\', 'u'] ++ text ++ body) (String.utf8EncodeChar c ++ value) := by
  cases h with
  | codepoint hdigits => exact .codepoint hdigits hbody
  | pair hhigh hlow h1 h2 h3 h4 hc =>
    have hpair := StringBody.pair hhigh hlow h1 h2 h3 h4 hc hbody
    simp only [List.append_assoc] at hpair ⊢
    exact hpair

theorem parse_codepoint_eq_ok {rest after : Bytes} {value : Nat} :
    parse_codepoint rest = .ok (value, after) ↔
      ∃ text c, IsCodepoint text c ∧ c.toNat = value ∧ rest = text ++ after := by
  constructor
  · intro h
    obtain ⟨⟨high, behind⟩, hhigh, hrun⟩ := Except.bind_eq_ok.mp h
    obtain ⟨high_digits, hdigits, rfl⟩ := parse_hex4_eq_ok.mp hhigh
    have hlt := hdigits.lt
    dsimp only at hrun
    split at hrun
    -- a high surrogate: the low one must follow, and the two are one character
    · rename_i hsurrogate
      split at hrun
      · exact absurd hrun (by simp [fail])
      · rename_i next hnext
        obtain ⟨slashed, hslash, hu⟩ := Option.bind_eq_some_iff.mp hnext
        obtain rfl := consume_char_eq_some.mp hslash
        obtain rfl := consume_char_eq_some.mp hu
        obtain ⟨⟨low, behind⟩, hlow, hpair⟩ := Except.bind_eq_ok.mp hrun
        obtain ⟨low_digits, hlowdigits, rfl⟩ := parse_hex4_eq_ok.mp hlow
        dsimp only at hpair
        split at hpair
        · exact absurd hpair (by simp [fail])
        · rename_i hrange
          obtain ⟨rfl, rfl⟩ := Prod.mk.inj (Except.ok.inj hpair)
          obtain ⟨c, hc⟩ := exists_char
            (n := 0x10000 + (high - 0xD800) * 0x400 + (low - 0xDC00)) (by omega)
          refine ⟨_, c, .pair hdigits hlowdigits hsurrogate.1 hsurrogate.2 (by omega) (by omega) hc,
            hc, ?_⟩
          simp only [List.append_assoc]
          rfl
    -- any other value is itself, unless it is a low surrogate
    · rename_i hnot
      split at hrun
      · exact absurd hrun (by simp [fail])
      · rename_i hnotlow
        obtain ⟨rfl, rfl⟩ := Prod.mk.inj (Except.ok.inj hrun)
        obtain ⟨c, hc⟩ := exists_char (n := high) (by omega)
        exact ⟨_, c, .codepoint (hc ▸ hdigits), hc, rfl⟩
  · rintro ⟨text, c, hcodepoint, rfl, rfl⟩
    cases hcodepoint with
    | codepoint hdigits =>
      have hvalid := toNat_le c
      rw [parse_codepoint, parse_hex4_eq_ok.mpr ⟨_, hdigits, rfl⟩, Except.ok_bind]
      dsimp only
      rw [if_neg (by omega), if_neg (by omega)]
    | @pair high_digits low_digits high low _ hhigh hlow h1 h2 h3 h4 hc =>
      have hsplit : high_digits ++ ascii ['\\', 'u'] ++ low_digits ++ after =
          high_digits ++ (92 :: 117 :: (low_digits ++ after)) := by
        simp only [List.append_assoc]
        rfl
      rw [hsplit, parse_codepoint, parse_hex4_eq_ok.mpr ⟨_, hhigh, rfl⟩, Except.ok_bind]
      dsimp only
      have hnext : (consume_char '\\' (92 :: 117 :: (low_digits ++ after))).bind
          (consume_char 'u') = some (low_digits ++ after) := rfl
      rw [if_pos ⟨h1, h2⟩, hnext]
      dsimp only
      rw [parse_hex4_eq_ok.mpr ⟨_, hlow, rfl⟩, Except.ok_bind]
      dsimp only
      rw [if_neg (by omega), hc]

theorem simple_escape_eq_some {b byte : UInt8} :
    simple_escape b = some byte ↔
      ∃ c n, (c, n) ∈ escapes ∧ b = c.toNat.toUInt8 ∧ byte = n.toUInt8 := by
  constructor
  · intro h
    rw [simple_escape] at h
    split_ifs at h with h1 h2 h3 h4 h5 h6 h7 h8
    all_goals obtain rfl := Option.some.inj h
    · exact ⟨'"', 34, by decide, h1, rfl⟩
    · exact ⟨'\\', 92, by decide, h2, rfl⟩
    · exact ⟨'/', 47, by decide, h3, rfl⟩
    · exact ⟨'b', 8, by decide, h4, rfl⟩
    · exact ⟨'f', 12, by decide, h5, rfl⟩
    · exact ⟨'n', 10, by decide, h6, rfl⟩
    · exact ⟨'r', 13, by decide, h7, rfl⟩
    · exact ⟨'t', 9, by decide, h8, rfl⟩
  · rintro ⟨c, n, hmem, rfl, rfl⟩
    simp only [escapes, List.mem_cons, Prod.mk.injEq, List.not_mem_nil, or_false] at hmem
    rcases hmem with ⟨rfl, rfl⟩ | ⟨rfl, rfl⟩ | ⟨rfl, rfl⟩ | ⟨rfl, rfl⟩ | ⟨rfl, rfl⟩ | ⟨rfl, rfl⟩ |
      ⟨rfl, rfl⟩ | ⟨rfl, rfl⟩ <;> rfl

/-- What the loop returns is the body of a string. -/
theorem of_parse_string_loop {fuel : Nat} {output rest value after : Bytes}
    (h : parse_string_loop fuel output rest = .ok (value, after)) :
    ∃ body bytes, StringBody body bytes ∧ value = output ++ bytes ∧ rest = body ++ 34 :: after := by
  induction fuel generalizing output rest with
  | zero => exact absurd h (by simp [parse_string_loop, fail])
  | succ fuel ih =>
    rw [parse_string_loop.eq_def] at h
    dsimp only at h
    split at h
    · exact absurd h (by simp [fail])
    · rename_i c rest
      split at h
      -- the closing quote
      · rename_i hquote
        obtain ⟨rfl, rfl⟩ := Prod.mk.inj (Except.ok.inj h)
        exact ⟨[], [], .nil, (List.append_nil _).symm, by rw [hquote]; rfl⟩
      · rename_i hquote
        split at h
        · exact absurd h (by simp [fail])
        · rename_i hcontrol
          split at h
          -- a byte that stands for itself
          · rename_i hplain
            obtain ⟨body, bytes, hbody, rfl, rfl⟩ := ih h
            refine ⟨c :: body, c :: bytes, .unescaped ?_ hquote hplain hbody, ?_, rfl⟩
            · exact UInt8.not_lt.mp hcontrol
            · rw [List.append_assoc, List.singleton_append]
          · rename_i hbackslash
            obtain rfl : c = 92 := not_not.mp hbackslash
            split at h
            · exact absurd h (by simp [fail])
            · rename_i escaped rest
              split at h
              -- four hex digits, or eight of a pair
              · rename_i hu
                obtain ⟨⟨codepoint, behind⟩, hparse, hloop⟩ := Except.bind_eq_ok.mp h
                obtain ⟨text, character, htext, rfl, rfl⟩ := parse_codepoint_eq_ok.mp hparse
                obtain ⟨body, bytes, hbody, rfl, rfl⟩ := ih hloop
                refine ⟨_, _, htext.body hbody, ?_, ?_⟩
                · rw [utf8_of_codepoint_toNat, List.append_assoc]
                · rw [hu, List.append_assoc, List.append_assoc]
                  rfl
              · split at h
                -- one of the short escapes
                · rename_i byte hsimple
                  obtain ⟨c, n, hmem, rfl, rfl⟩ := simple_escape_eq_some.mp hsimple
                  obtain ⟨body, bytes, hbody, rfl, rfl⟩ := ih h
                  exact ⟨_, _, .escaped hmem hbody, by rw [List.append_assoc]; rfl, rfl⟩
                · exact absurd h (by simp [fail])

/-- One round of the loop for an escape with its `u`. -/
theorem parse_string_loop_codepoint (fuel : Nat) (output rest : Bytes) :
    parse_string_loop (fuel + 1) output (ascii ['\\', 'u'] ++ rest) =
      (parse_codepoint rest >>= fun r =>
        parse_string_loop fuel (output ++ utf8_of_codepoint r.1) r.2) := rfl

/-- The loop returns the body of a string, whatever was there before it and whatever comes behind
the quote. The body is shorter than the fuel, which the whole input always is. -/
theorem StringBody.parse {body bytes : Bytes} (h : StringBody body bytes) {fuel : Nat}
    (hfuel : body.length < fuel) (output after : Bytes) :
    parse_string_loop fuel output (body ++ 34 :: after) = .ok (output ++ bytes, after) := by
  have hcodepoint {text body bytes : Bytes} {c : Char} {fuel : Nat} {output : Bytes}
      (htext : IsCodepoint text c)
      (hrest : parse_string_loop fuel (output ++ String.utf8EncodeChar c) (body ++ 34 :: after) =
        .ok (output ++ String.utf8EncodeChar c ++ bytes, after)) :
      parse_string_loop (fuel + 1) output (ascii ['\\', 'u'] ++ text ++ body ++ 34 :: after) =
        .ok (output ++ (String.utf8EncodeChar c ++ bytes), after) := by
    rw [List.append_assoc, List.append_assoc, parse_string_loop_codepoint,
      parse_codepoint_eq_ok.mpr ⟨text, c, htext, rfl, rfl⟩, Except.ok_bind, utf8_of_codepoint_toNat,
      hrest, List.append_assoc]
  induction h generalizing fuel output with
  | nil =>
    obtain ⟨fuel, rfl⟩ := Nat.exists_eq_succ_of_ne_zero (Nat.ne_of_gt hfuel)
    rw [List.append_nil]
    rfl
  | @unescaped b body bytes hcontrol hquote hplain hbody ih =>
    obtain ⟨fuel, rfl⟩ := Nat.exists_eq_succ_of_ne_zero (Nat.ne_of_gt (Nat.zero_lt_of_lt hfuel))
    rw [List.cons_append, parse_string_loop.eq_def]
    dsimp only
    rw [if_neg hquote, if_neg (UInt8.not_lt.mpr hcontrol), if_pos hplain,
      ih (Nat.lt_of_succ_lt_succ hfuel), List.append_assoc, List.singleton_append]
  | @escaped c n body bytes hmem hbody ih =>
    obtain ⟨fuel, rfl⟩ := Nat.exists_eq_succ_of_ne_zero (Nat.ne_of_gt (Nat.zero_lt_of_lt hfuel))
    rw [List.length_append] at hfuel
    have hsimple := simple_escape_eq_some.mpr ⟨c, n, hmem, rfl, rfl⟩
    have hu : ¬c.toNat.toUInt8 = 117 := fun hu => by
      have hnone : simple_escape 117 = none := rfl
      rw [hu, hnone] at hsimple
      cases hsimple
    have hstep : parse_string_loop (fuel + 1) output (ascii ['\\', c] ++ body ++ 34 :: after) =
        parse_string_loop fuel (output ++ [n.toUInt8]) (body ++ 34 :: after) := by
      change parse_string_loop (fuel + 1) output (92 :: c.toNat.toUInt8 :: (body ++ 34 :: after)) = _
      rw [parse_string_loop.eq_def]
      dsimp only
      rw [if_neg (by decide), if_neg (by decide), if_neg (by decide), if_neg hu, hsimple]
    rw [hstep, ih (by simp only [ascii, List.length_map, List.length_cons] at hfuel; omega), List.append_assoc, List.singleton_append]
  | @codepoint digits c body bytes hdigits hbody ih =>
    obtain ⟨fuel, rfl⟩ := Nat.exists_eq_succ_of_ne_zero (Nat.ne_of_gt (Nat.zero_lt_of_lt hfuel))
    rw [List.length_append, List.length_append] at hfuel
    exact hcodepoint (.codepoint hdigits) (ih (by simp only [ascii, List.length_map, List.length_cons] at hfuel; omega) _)
  | @pair high_digits low_digits high low c body bytes hhigh hlow h1 h2 h3 h4 hc hbody ih =>
    obtain ⟨fuel, rfl⟩ := Nat.exists_eq_succ_of_ne_zero (Nat.ne_of_gt (Nat.zero_lt_of_lt hfuel))
    simp only [List.length_append, ascii, List.length_map, List.length_cons] at hfuel
    have hinner : body.length < fuel := by omega
    have hpair := hcodepoint (.pair hhigh hlow h1 h2 h3 h4 hc)
      (ih hinner (output ++ String.utf8EncodeChar c))
    simp only [List.append_assoc] at hpair ⊢
    exact hpair

/-- **Strings.** -/
theorem parse_string_eq_ok {rest value after : Bytes} :
    parse_string rest = .ok (value, after) ↔ ∃ text, IsString text value ∧ rest = text ++ after := by
  constructor
  · intro h
    obtain ⟨⟨_, behind⟩, hopen, h⟩ := Except.bind_eq_ok.mp h
    obtain rfl := expect_eq_ok.mp hopen
    obtain ⟨body, bytes, hbody, rfl, rfl⟩ := of_parse_string_loop h
    refine ⟨_, ⟨body, hbody, rfl⟩, ?_⟩
    simp only [List.append_assoc]
    rfl
  · rintro ⟨text, ⟨body, hbody, rfl⟩, rfl⟩
    have hrest : ascii ['"'] ++ body ++ ascii ['"'] ++ after = 34 :: (body ++ 34 :: after) := by
      simp only [List.append_assoc]
      rfl
    rw [hrest]
    have hfuel : body.length < (body ++ 34 :: after).length + 1 := by
      rw [List.length_append]
      omega
    exact (hbody.parse hfuel [] after).trans (by rw [List.nil_append])

/-! ### Numbers -/

theorem of_integer_part {rest digits after : Bytes}
    (h : integer_part rest = .ok (digits, after)) : IsDigits digits ∧ rest = digits ++ after := by
  rw [integer_part] at h
  split at h
  · rename_i behind hzero
    obtain rfl := consume_char_eq_some.mp hzero
    split at h
    · obtain ⟨rfl, rfl⟩ := Prod.mk.inj (Except.ok.inj h)
      exact ⟨Or.inl rfl, rfl⟩
    · split at h
      · exact absurd h (by simp [fail])
      · obtain ⟨rfl, rfl⟩ := Prod.mk.inj (Except.ok.inj h)
        exact ⟨Or.inl rfl, rfl⟩
  · rename_i hzero
    obtain ⟨hne, hall, rfl⟩ := of_digit_run h
    refine ⟨Or.inr ⟨hne, hall, fun hhead => ?_⟩, rfl⟩
    obtain ⟨b, digits, rfl⟩ := List.exists_cons_of_ne_nil hne
    obtain rfl := Option.some.inj hhead
    exact absurd hzero (by simp [consume_char, consume, ascii])

/-- What is returned for a number is a number. -/
theorem of_parse_number {numbers : NumberText} {rest after : Bytes} {value : Json numbers.Double}
    (h : parse_number numbers rest = .ok (value, after)) :
    ∃ text, IsNumber numbers text value ∧ rest = text ++ after := by
  rw [parse_number] at h
  have htoken : ∀ negative digits fraction exponent,
      token_value numbers negative digits fraction exponent =
        (if fraction = [] ∧ exponent = [] then from_chars negative digits else none).elim
          ((numbers.strtod
            ((if negative then ascii ['-'] else []) ++ digits ++ fraction ++ exponent)).map .number)
          fun value => some (.integer value) := by
    intro negative digits fraction exponent
    rw [token_value]
    cases if fraction = [] ∧ exponent = [] then from_chars negative digits else none <;> rfl
  -- the conversion is not to be computed here
  generalize from_chars = convert at h htoken
  obtain ⟨negative, unsigned, rfl, hunsigned⟩ := of_bind_minus h
  obtain ⟨⟨digits, behind⟩, hread, hrun⟩ := Except.bind_eq_ok.mp hunsigned
  obtain ⟨hdigits, rfl⟩ := of_integer_part hread
  obtain ⟨fraction, behind, hfraction, rfl, hbehind⟩ := of_bind_fraction hrun
  obtain ⟨exponent, behind, hexponent, rfl, hlast⟩ := of_bind_exponent hbehind
  have hsign : decide ((if negative then ascii ['-'] else []) ≠ []) = negative := by
    cases negative <;> rfl
  dsimp only at hlast
  rw [hsign] at hlast
  have hvalue : token_value numbers negative digits fraction exponent = some value ∧
      behind = after := by
    rw [htoken]
    split at hlast
    · rename_i n hinteger
      obtain ⟨rfl, rfl⟩ := Prod.mk.inj (Except.ok.inj hlast)
      rw [hinteger]
      exact ⟨rfl, rfl⟩
    · rename_i hinteger
      rw [hinteger]
      split at hlast
      · rename_i d hd
        obtain ⟨rfl, rfl⟩ := Prod.mk.inj (Except.ok.inj hlast)
        rw [Option.elim_none, hd]
        exact ⟨rfl, rfl⟩
      · exact absurd hlast (by simp [fail])
  obtain ⟨hvalue, rfl⟩ := hvalue
  refine ⟨_, ⟨negative, digits, fraction, exponent, hdigits, hfraction, hexponent, hvalue, rfl⟩, ?_⟩
  simp only [List.append_assoc]

/-- A number of the grammar is parsed up to its end, where it is followed by what cannot go on with
it. It is an integer if it has neither a fraction nor an exponent and fits. -/
theorem IsNumber.parse {numbers : NumberText} {text after : Bytes} {value : Json numbers.Double}
    (h : IsNumber numbers text value) (hafter : Ends after) :
    parse_number numbers (text ++ after) = .ok (value, after) := by
  obtain ⟨negative, digits, fraction, exponent, hdigits, hfraction, hexponent, hvalue, rfl⟩ := h
  simp only [List.append_assoc]
  exact parse_number_token numbers negative hdigits hfraction hexponent hafter hvalue

/-! ### What is returned is in the grammar -/

section Sound

variable {numbers : NumberText} {rest after : Bytes} {value : Json numbers.Double}

theorem of_expect_literal {literal : List Char} {v : Json numbers.Double}
    (h : expect_literal literal v rest = .ok (value, after)) :
    value = v ∧ rest = ascii literal ++ after := by
  rw [expect_literal, consume] at h
  split at h
  · rename_i behind hconsume
    obtain ⟨⟨t, rfl⟩, hdrop⟩ := Option.ite_none_right_eq_some.mp hconsume
    obtain rfl := Option.some.inj hdrop
    obtain ⟨rfl, rfl⟩ := Prod.mk.inj (Except.ok.inj h)
    exact ⟨rfl, by rw [List.drop_left]⟩
  · exact absurd h (by simp [fail])

theorem IsSpace.append {space more : Bytes} (h : IsSpace space) (hmore : IsSpace more) :
    IsSpace (space ++ more) := fun b hb => (List.mem_append.mp hb).elim (h b) (hmore b)

/-- White space in front of the items of an array belongs to them. -/
theorem IsItems.space_append {space text : Bytes} {items : List (Json numbers.Double)}
    (hspace : IsSpace space) (h : IsItems numbers text items) :
    IsItems numbers (space ++ text) items := by
  cases h with
  | last hbefore hvalue hafter =>
    have hitems := IsItems.last (hspace.append hbefore) hvalue hafter
    simp only [List.append_assoc] at hitems ⊢
    exact hitems
  | cons hbefore hvalue hafter hrest =>
    have hitems := IsItems.cons (hspace.append hbefore) hvalue hafter hrest
    simp only [List.append_assoc] at hitems ⊢
    exact hitems

/-- White space in front of the entries of an object belongs to them. -/
theorem IsEntries.space_append {space text : Bytes} {entries : List (Bytes × Json numbers.Double)}
    (hspace : IsSpace space) (h : IsEntries numbers text entries) :
    IsEntries numbers (space ++ text) entries := by
  cases h with
  | last hbefore hname hafter hstart hvalue hfinish =>
    have hentries := IsEntries.last (hspace.append hbefore) hname hafter hstart hvalue hfinish
    simp only [List.append_assoc] at hentries ⊢
    exact hentries
  | cons hbefore hname hafter hstart hvalue hfinish hrest =>
    have hentries := IsEntries.cons (hspace.append hbefore) hname hafter hstart hvalue hfinish hrest
    simp only [List.append_assoc] at hentries ⊢
    exact hentries

/-- **What the parser returns is in the grammar**, by induction on the fuel: a value, the items
that are added to an array, and the entries that are added to an object. -/
theorem of_parse_value (fuel : Nat) :
    (∀ {rest after : Bytes} {value}, parse_value numbers fuel rest = .ok (value, after) →
      ∃ text, IsValue numbers text value ∧ rest = text ++ after) ∧
    (∀ {items} {rest after : Bytes} {value},
      parse_items numbers fuel items rest = .ok (value, after) →
        ∃ text more, IsItems numbers text more ∧ value = .array (items ++ more) ∧
          rest = text ++ 93 :: after) ∧
    (∀ {entries} {rest after : Bytes} {value}, (entries.map Prod.fst).Nodup →
      parse_entries numbers fuel entries rest = .ok (value, after) →
        ∃ text more, IsEntries numbers text more ∧ ((entries ++ more).map Prod.fst).Nodup ∧
          value = .object (entries ++ more) ∧ rest = text ++ 125 :: after) := by
  induction fuel with
  | zero =>
    refine ⟨fun {rest after value} h => ?_, fun {items rest after value} h => ?_,
      fun {entries rest after value} _ h => ?_⟩
    · rw [parse_value] at h
      exact absurd h Except.error_ne_ok
    · rw [parse_items] at h
      exact absurd h Except.error_ne_ok
    · rw [parse_entries] at h
      exact absurd h Except.error_ne_ok
  | succ fuel ih =>
    obtain ⟨ihvalue, ihitems, ihentries⟩ := ih
    refine ⟨fun {rest after value} h => ?_, fun {items rest after value} h => ?_,
      fun {entries rest after value} hkeys h => ?_⟩
    -- a value, by the byte it begins with
    · rw [parse_value.eq_def] at h
      dsimp only at h
      split at h
      · exact absurd h Except.error_ne_ok
      split_ifs at h with hnull htrue hfalse hstring harray hobject hnumber
      · obtain ⟨rfl, htext⟩ := of_expect_literal h
        exact ⟨_, .null_literal, htext⟩
      · obtain ⟨rfl, htext⟩ := of_expect_literal h
        exact ⟨_, .true_literal, htext⟩
      · obtain ⟨rfl, htext⟩ := of_expect_literal h
        exact ⟨_, .false_literal, htext⟩
      · cases hs : parse_string _ with
        | error e =>
          rw [hs] at h
          exact absurd h Except.error_ne_ok
        | ok s =>
          rw [hs] at h
          obtain ⟨rfl, rfl⟩ := Prod.mk.inj (Except.ok.inj h)
          obtain ⟨text, htext, hrest⟩ := parse_string_eq_ok.mp hs
          exact ⟨text, .string htext, hrest⟩
      · obtain ⟨⟨_, inner⟩, hopen, hrun⟩ := Except.bind_eq_ok.mp h
        rw [expect_eq_ok.mp hopen]
        obtain ⟨space, hspace, hinner⟩ := skip_json_space_eq inner
        dsimp only at hrun
        split at hrun
        · rename_i hclose
          obtain ⟨rfl, rfl⟩ := Prod.mk.inj (Except.ok.inj hrun)
          rw [consume_char_eq_some.mp hclose] at hinner
          exact ⟨_, .empty_array hspace, by rw [hinner]; simp⟩
        · obtain ⟨text, items, hitems, rfl, hskip⟩ := ihitems hrun
          rw [hskip] at hinner
          exact ⟨_, .array (hitems.space_append hspace), by rw [hinner]; simp⟩
      · obtain ⟨⟨_, inner⟩, hopen, hrun⟩ := Except.bind_eq_ok.mp h
        rw [expect_eq_ok.mp hopen]
        obtain ⟨space, hspace, hinner⟩ := skip_json_space_eq inner
        dsimp only at hrun
        split at hrun
        · rename_i hclose
          obtain ⟨rfl, rfl⟩ := Prod.mk.inj (Except.ok.inj hrun)
          rw [consume_char_eq_some.mp hclose] at hinner
          exact ⟨_, .empty_object hspace, by rw [hinner]; simp⟩
        · obtain ⟨text, entries, hentries, hkeys, rfl, hskip⟩ :=
            ihentries (by exact List.nodup_nil) hrun
          rw [hskip] at hinner
          exact ⟨_, .object (hentries.space_append hspace) hkeys, by rw [hinner]; simp⟩
      · obtain ⟨text, htext, hrest⟩ := of_parse_number h
        exact ⟨text, .number htext, hrest⟩
      · exact absurd h Except.error_ne_ok
    -- an item, and then the end of the array or a comma and more items
    · rw [parse_items] at h
      obtain ⟨⟨item, behind⟩, hitem, hrun⟩ := Except.bind_eq_ok.mp h
      obtain ⟨text, htext, hskip⟩ := ihvalue hitem
      obtain ⟨before, hbefore, hrest⟩ := skip_json_space_eq rest
      obtain ⟨space, hspace, hbehind⟩ := skip_json_space_eq behind
      rw [hrest, hskip, hbehind]
      dsimp only at hrun
      split at hrun
      · rename_i hclose
        obtain ⟨rfl, rfl⟩ := Prod.mk.inj (Except.ok.inj hrun)
        refine ⟨_, _, .last hbefore htext hspace, rfl, ?_⟩
        rw [consume_char_eq_some.mp hclose]
        simp
      · obtain ⟨⟨_, next⟩, hcomma, hloop⟩ := Except.bind_eq_ok.mp hrun
        obtain ⟨more, others, hmore, rfl, rfl⟩ := ihitems hloop
        refine ⟨_, _, .cons hbefore htext hspace hmore, ?_, ?_⟩
        · rw [List.append_assoc, List.singleton_append]
        · rw [expect_eq_ok.mp hcomma]
          simp
    -- an entry, whose key must be new, and then the end of the object or more entries
    · rw [parse_entries] at h
      dsimp only at h
      split at h
      · exact absurd h Except.error_ne_ok
      obtain ⟨⟨key, named⟩, hname, hcolon⟩ := Except.bind_eq_ok.mp h
      obtain ⟨⟨_, opened⟩, hexpect, hvalue⟩ := Except.bind_eq_ok.mp hcolon
      obtain ⟨⟨item, behind⟩, hitem, hrun⟩ := Except.bind_eq_ok.mp hvalue
      obtain ⟨name, hstring, hskip⟩ := parse_string_eq_ok.mp hname
      obtain ⟨text, htext, hstarted⟩ := ihvalue hitem
      obtain ⟨before, hbefore, hrest⟩ := skip_json_space_eq rest
      obtain ⟨gap, hgap, hnamed⟩ := skip_json_space_eq named
      obtain ⟨start, hstart, hopened⟩ := skip_json_space_eq opened
      obtain ⟨finish, hfinish, hbehind⟩ := skip_json_space_eq behind
      rw [hrest, hskip, hnamed, expect_eq_ok.mp hexpect, hopened, hstarted, hbehind]
      dsimp only at hrun
      split at hrun
      · exact absurd hrun Except.error_ne_ok
      rename_i hfresh
      have hnodup := nodup_keys_append hkeys hfresh item
      split at hrun
      · rename_i hclose
        obtain ⟨rfl, rfl⟩ := Prod.mk.inj (Except.ok.inj hrun)
        refine ⟨_, _, .last hbefore hstring hgap hstart htext hfinish, hnodup, rfl, ?_⟩
        rw [consume_char_eq_some.mp hclose]
        simp
      · obtain ⟨⟨_, next⟩, hcomma, hloop⟩ := Except.bind_eq_ok.mp hrun
        obtain ⟨more, others, hmore, hall, rfl, rfl⟩ := ihentries hnodup hloop
        rw [List.append_assoc, List.singleton_append] at hall
        refine ⟨_, _, .cons hbefore hstring hgap hstart htext hfinish hmore, hall, ?_, ?_⟩
        · rw [List.append_assoc, List.singleton_append]
        · rw [expect_eq_ok.mp hcomma]
          simp

theorem isDocument_of_parse {source : Bytes} (h : parse numbers source = .ok value) :
    IsDocument numbers source value := by
  rw [parse] at h
  obtain ⟨⟨v, behind⟩, hvalue, hrun⟩ := Except.bind_eq_ok.mp h
  obtain ⟨before, hbefore, hsource⟩ := skip_json_space_eq source
  obtain ⟨finish, hfinish, hbehind⟩ := skip_json_space_eq behind
  obtain ⟨text, htext, hskip⟩ := (of_parse_value _).1 hvalue
  dsimp only at hrun
  split at hrun
  · rename_i hend
    obtain rfl := Except.ok.inj hrun
    rw [hend, List.append_nil] at hbehind
    refine ⟨before, text, finish, hbefore, htext, hfinish, ?_⟩
    rw [hsource, hskip, hbehind, List.append_assoc]
  · exact absurd hrun Except.error_ne_ok

end Sound

/-! ### What is in the grammar is returned -/

section Complete

variable {numbers : NumberText} {text : Bytes} {value : Json numbers.Double}

/-- What may stand behind a value. -/
def Follows (rest : Bytes) : Prop :=
  ∀ b ∈ rest.head?, is_json_space b = true ∨ b = 44 ∨ b = 93 ∨ b = 125

theorem Follows.ends {rest : Bytes} (h : Follows rest) : Ends rest := by
  intro b hb
  rcases h b hb with hspace | rfl | rfl | rfl
  · simp only [is_json_space, Bool.or_eq_true, beq_iff_eq] at hspace
    rcases hspace with ((rfl | rfl) | rfl) | rfl <;> decide
  · decide
  · decide
  · decide

/-- White space may stand behind a value, and what may stand behind the white space. -/
theorem IsSpace.follows {space rest : Bytes} (h : IsSpace space) (hrest : Follows rest) :
    Follows (space ++ rest) := by
  cases space with
  | nil => exact hrest
  | cons b space =>
    intro b' hb'
    obtain rfl := Option.some.inj hb'
    exact Or.inl (h b List.mem_cons_self)

theorem follows_cons {b : UInt8} (hb : b = 44 ∨ b = 93 ∨ b = 125) (rest : Bytes) :
    Follows (b :: rest) := by
  intro b' hb'
  obtain rfl := Option.some.inj hb'
  exact Or.inr hb

theorem IsSpace.skip_cons {space : Bytes} (h : IsSpace space) {b : UInt8}
    (hb : is_json_space b = false) (rest : Bytes) :
    skip_json_space (space ++ b :: rest) = b :: rest :=
  h.skip fun b' hb' => by
    obtain rfl := Option.some.inj hb'
    exact hb

/-- A value starts with a byte that is neither white space nor a closing bracket. -/
theorem IsValue.head (h : IsValue numbers text value) :
    ∃ b tail, text = b :: tail ∧ is_json_space b = false ∧ b ≠ 93 := by
  cases h with
  | null_literal => exact ⟨_, _, rfl, rfl, by decide⟩
  | true_literal => exact ⟨_, _, rfl, rfl, by decide⟩
  | false_literal => exact ⟨_, _, rfl, rfl, by decide⟩
  | number hnumber =>
    obtain ⟨negative, digits, fraction, exponent, hdigits, -, -, -, rfl⟩ := hnumber
    rw [List.append_assoc, List.append_assoc]
    obtain ⟨b, tail, htext, hb⟩ := number_head negative hdigits (fraction ++ exponent)
    exact ⟨b, tail, htext, not_space_of_number_head hb, ne_of_number_head hb (by decide) rfl⟩
  | string hstring =>
    obtain ⟨body, -, rfl⟩ := hstring
    exact ⟨34, _, rfl, rfl, by decide⟩
  | empty_array => exact ⟨91, _, rfl, rfl, by decide⟩
  | array => exact ⟨91, _, rfl, rfl, by decide⟩
  | empty_object => exact ⟨123, _, rfl, rfl, by decide⟩
  | object => exact ⟨123, _, rfl, rfl, by decide⟩

theorem IsString.head {text value : Bytes} (h : IsString text value) :
    ∃ tail, text = 34 :: tail := by
  obtain ⟨body, -, rfl⟩ := h
  exact ⟨_, rfl⟩

/-- White space in front of a value is skipped. -/
theorem IsValue.skip (h : IsValue numbers text value) {space : Bytes} (hspace : IsSpace space)
    (rest : Bytes) : skip_json_space (space ++ (text ++ rest)) = text ++ rest := by
  obtain ⟨b, tail, rfl, hb, -⟩ := h.head
  exact hspace.skip_cons hb (tail ++ rest)

/-- The first byte of the items of an array that is not white space does not close it. -/
theorem IsItems.open {items : List (Json numbers.Double)} (h : IsItems numbers text items)
    (rest : Bytes) : consume_char ']' (skip_json_space (text ++ rest)) = none := by
  cases h with
  | last hbefore hvalue hafter =>
    rw [List.append_assoc, List.append_assoc, hvalue.skip hbefore]
    obtain ⟨b, tail, rfl, -, hclose⟩ := hvalue.head
    exact consume_char_of_ne hclose _
  | cons hbefore hvalue hafter =>
    rw [List.append_assoc, List.append_assoc, List.append_assoc, hvalue.skip hbefore]
    obtain ⟨b, tail, rfl, -, hclose⟩ := hvalue.head
    exact consume_char_of_ne hclose _

theorem IsEntries.open {entries : List (Bytes × Json numbers.Double)}
    (h : IsEntries numbers text entries) (rest : Bytes) :
    consume_char '\x7d' (skip_json_space (text ++ rest)) = none := by
  cases h with
  | last hbefore hname =>
    obtain ⟨tail, rfl⟩ := hname.head
    rw [List.append_assoc, List.append_assoc, List.append_assoc, List.cons_append,
      hbefore.skip_cons rfl]
    exact consume_char_of_ne (by decide) _
  | cons hbefore hname =>
    obtain ⟨tail, rfl⟩ := hname.head
    rw [List.append_assoc, List.append_assoc, List.append_assoc, List.cons_append,
      hbefore.skip_cons rfl]
    exact consume_char_of_ne (by decide) _

theorem skip_json_space_idem (rest : Bytes) :
    skip_json_space (skip_json_space rest) = skip_json_space rest :=
  List.dropWhile_idempotent _ rest

/-- The parser of an array in front of its items. -/
theorem parse_value_array (fuel : Nat) (inner : Bytes) :
    parse_value numbers (fuel + 1) (91 :: inner) =
      match consume_char ']' (skip_json_space inner) with
      | some rest => .ok (.array [], rest)
      | none => parse_items numbers fuel [] (skip_json_space inner) := rfl

theorem parse_value_object (fuel : Nat) (inner : Bytes) :
    parse_value numbers (fuel + 1) (123 :: inner) =
      match consume_char '\x7d' (skip_json_space inner) with
      | some rest => .ok (.object [], rest)
      | none => parse_entries numbers fuel [] (skip_json_space inner) := rfl

theorem parse_value_string {body : Bytes} (fuel : Nat) :
    parse_value numbers (fuel + 1) (34 :: body) =
      (parse_string (34 :: body)).map fun (value, rest) => (.string value, rest) := rfl

theorem expect_comma (rest : Bytes) : expect ',' (44 :: rest) = .ok ((), rest) := rfl

theorem expect_colon (rest : Bytes) : expect ':' (58 :: rest) = .ok ((), rest) := rfl

/-- One item, up to what stands behind it. -/
theorem parse_items_of_item {fuel : Nat} {items : List (Json numbers.Double)}
    {before after more : Bytes} (hbefore : IsSpace before) (htext : IsValue numbers text value)
    (hafter : IsSpace after) {b : UInt8}
    (hspace : is_json_space b = false)
    (hvalue : parse_value numbers fuel (text ++ (after ++ b :: more)) =
      .ok (value, after ++ b :: more)) :
    parse_items numbers (fuel + 1) items (before ++ text ++ after ++ b :: more) =
      (match consume_char ']' (b :: more) with
      | some rest => .ok (.array (items ++ [value]), rest)
      | none => do
        let (_, rest) ← expect ',' (b :: more)
        parse_items numbers fuel (items ++ [value]) rest) := by
  rw [parse_items, List.append_assoc, List.append_assoc, htext.skip hbefore, hvalue, Except.ok_bind]
  dsimp only
  generalize hrest : skip_json_space (after ++ b :: more) = rest
  rw [hafter.skip_cons hspace] at hrest
  subst hrest
  rfl

/-- One entry, up to what stands behind it. -/
theorem parse_entries_of_entry {fuel : Nat} {entries : List (Bytes × Json numbers.Double)}
    {before name key after start finish more : Bytes} (hbefore : IsSpace before)
    (hname : IsString name key) (hafter : IsSpace after) (hstart : IsSpace start)
    (htext : IsValue numbers text value) (hfinish : IsSpace finish)
    (hfresh : key ∉ entries.map Prod.fst) {b : UInt8}
    (hspace : is_json_space b = false)
    (hvalue : parse_value numbers fuel (text ++ (finish ++ b :: more)) =
      .ok (value, finish ++ b :: more)) :
    parse_entries numbers (fuel + 1) entries
        (before ++ name ++ after ++ 58 :: (start ++ text ++ finish ++ b :: more)) =
      (match consume_char '\x7d' (b :: more) with
      | some rest => .ok (.object (entries ++ [(key, value)]), rest)
      | none => do
        let (_, rest) ← expect ',' (b :: more)
        parse_entries numbers fuel (entries ++ [(key, value)]) rest) := by
  have hlookup : ¬(entries.lookup key).isSome = true := by
    intro hsome
    obtain ⟨entry, hentry, heq⟩ := List.lookup_isSome_iff.mp hsome
    exact hfresh (List.mem_map.mpr ⟨entry, hentry, (beq_iff_eq.mp heq).symm⟩)
  have hstring : ∀ behind, parse_string (name ++ behind) = .ok (key, behind) :=
    fun behind => parse_string_eq_ok.mpr ⟨name, hname, rfl⟩
  obtain ⟨tail, rfl⟩ := hname.head
  have hskip : skip_json_space (before ++ 34 :: tail ++ after ++
      58 :: (start ++ text ++ finish ++ b :: more)) =
      34 :: tail ++ (after ++ 58 :: (start ++ text ++ finish ++ b :: more)) := by
    rw [List.append_assoc, List.append_assoc]
    exact hbefore.skip_cons rfl _
  rw [parse_entries]
  dsimp only
  rw [hskip, if_neg (by simp), hstring, Except.ok_bind]
  dsimp only
  rw [hafter.skip_cons rfl, expect_colon, Except.ok_bind]
  dsimp only
  rw [List.append_assoc, List.append_assoc, htext.skip hstart, hvalue, Except.ok_bind]
  dsimp only
  rw [if_neg hlookup]
  generalize hrest : skip_json_space (finish ++ b :: more) = rest
  rw [hfinish.skip_cons hspace] at hrest
  subst hrest
  rfl

theorem parse_items_skip (fuel : Nat) (items : List (Json numbers.Double)) (rest : Bytes) :
    parse_items numbers (fuel + 1) items (skip_json_space rest) =
      parse_items numbers (fuel + 1) items rest := by
  rw [parse_items, parse_items, skip_json_space_idem]

theorem parse_entries_skip (fuel : Nat) (entries : List (Bytes × Json numbers.Double))
    (rest : Bytes) :
    parse_entries numbers (fuel + 1) entries (skip_json_space rest) =
      parse_entries numbers (fuel + 1) entries rest := by
  rw [parse_entries, parse_entries, skip_json_space_idem]

/-- **What is in the grammar is returned**, by induction on the fuel, which is more than the
text. -/
theorem IsValue.parse (fuel : Nat) :
    (∀ {text value}, IsValue numbers text value → text.length < fuel → ∀ {rest}, Follows rest →
      parse_value numbers fuel (text ++ rest) = .ok (value, rest)) ∧
    (∀ {text more}, IsItems numbers text more → text.length + 1 < fuel → ∀ items rest,
      parse_items numbers fuel items (text ++ 93 :: rest) = .ok (.array (items ++ more), rest)) ∧
    (∀ {text more}, IsEntries numbers text more → text.length + 1 < fuel → ∀ entries rest,
      ((entries ++ more).map Prod.fst).Nodup →
        parse_entries numbers fuel entries (text ++ 125 :: rest) =
          .ok (.object (entries ++ more), rest)) := by
  induction fuel with
  | zero => exact ⟨fun _ h => absurd h (by omega), fun _ h => absurd h (by omega),
      fun _ h => absurd h (by omega)⟩
  | succ fuel ih =>
    obtain ⟨ihvalue, ihitems, ihentries⟩ := ih
    refine ⟨fun {text value} h hfuel {rest} hrest => ?_, fun {text more} h hfuel items rest => ?_,
      fun {text more} h hfuel entries rest hkeys => ?_⟩
    -- a value: the byte it begins with is that of its kind
    · cases h with
      | null_literal => rfl
      | true_literal => rfl
      | false_literal => rfl
      | number hnumber =>
        have hparse := hnumber.parse hrest.ends
        obtain ⟨negative, digits, fraction, exponent, hdigits, -, -, -, rfl⟩ := hnumber
        obtain ⟨b, tail, htext, hb⟩ := number_head negative hdigits (fraction ++ (exponent ++ rest))
        simp only [List.append_assoc] at hparse ⊢
        rw [htext] at hparse ⊢
        exact (parse_value_number hb fuel tail).trans hparse
      | @string _ bytes hstring =>
        have hparse : parse_string (text ++ rest) = .ok (bytes, rest) :=
          parse_string_eq_ok.mpr ⟨text, hstring, rfl⟩
        obtain ⟨tail, rfl⟩ := hstring.head
        rw [List.cons_append] at hparse ⊢
        rw [parse_value_string, hparse]
        rfl
      | @empty_array space hspace =>
        have hskip : skip_json_space (space ++ [93] ++ rest) = 93 :: rest := by
          rw [List.append_assoc]
          exact hspace.skip_cons rfl rest
        rw [List.cons_append, List.cons_append, parse_value_array, hskip]
        rfl
      | @array inner items hitems =>
        rw [List.length_append, List.length_cons, List.length_singleton] at hfuel
        rw [List.cons_append, List.cons_append, parse_value_array, List.append_assoc, hitems.open]
        dsimp only
        -- the loop of the items skips white space itself, so that behind the bracket may go
        obtain ⟨fuel, rfl⟩ := Nat.exists_eq_succ_of_ne_zero (Nat.ne_of_gt
          (show 0 < fuel by omega))
        rw [parse_items_skip]
        exact ihitems hitems (by omega) [] rest
      | @empty_object space hspace =>
        have hskip : skip_json_space (space ++ [125] ++ rest) = 125 :: rest := by
          rw [List.append_assoc]
          exact hspace.skip_cons rfl rest
        rw [List.cons_append, List.cons_append, parse_value_object, hskip]
        rfl
      | @object inner entries hentries hkeys =>
        rw [List.length_append, List.length_cons, List.length_singleton] at hfuel
        rw [List.cons_append, List.cons_append, parse_value_object, List.append_assoc,
          hentries.open]
        dsimp only
        obtain ⟨fuel, rfl⟩ := Nat.exists_eq_succ_of_ne_zero (Nat.ne_of_gt
          (show 0 < fuel by omega))
        rw [parse_entries_skip]
        exact ihentries hentries (by omega) [] rest hkeys
    -- the items: behind the last one is the bracket, behind another one a comma
    · cases h with
      | @last before text after item hbefore hvalue hafter =>
        simp only [List.length_append] at hfuel
        rw [parse_items_of_item hbefore hvalue hafter rfl
          (ihvalue hvalue (by omega) (hafter.follows (follows_cons (by decide) rest)))]
        rfl
      | @cons before text after item inner more hbefore hvalue hafter hmore =>
        simp only [List.length_append, List.length_cons] at hfuel
        rw [List.append_assoc, List.cons_append,
          parse_items_of_item hbefore hvalue hafter rfl
            (ihvalue hvalue (by omega) (hafter.follows (follows_cons (by decide) _))),
          consume_char_of_ne (by decide), expect_comma]
        dsimp only
        obtain ⟨b, tail, rfl, -⟩ := hvalue.head
        rw [List.length_cons] at hfuel
        rw [Except.ok_bind]
        dsimp only
        rw [ihitems hmore (by omega), List.append_assoc, List.singleton_append]
    -- the entries: their keys are new to those that have been read, and stay so
    · cases h with
      | @last before name key after start text value finish hbefore hname hafter hstart hvalue
          hfinish =>
        simp only [List.length_append, List.length_cons] at hfuel
        have hfresh : key ∉ entries.map Prod.fst := by
          rw [List.map_append, List.nodup_append] at hkeys
          exact fun hmem => hkeys.2.2 key hmem key List.mem_cons_self rfl
        have hfollows : Follows (finish ++ 125 :: rest) :=
          hfinish.follows (follows_cons (by decide) rest)
        have hstep := parse_entries_of_entry hbefore hname hafter hstart hvalue hfinish hfresh rfl
          (ihvalue hvalue (by omega) hfollows)
        simp only [List.append_assoc, List.cons_append] at hstep ⊢
        exact hstep
      | @cons before name key after start text value finish inner more hbefore hname hafter hstart
          hvalue hfinish hmore =>
        simp only [List.length_append, List.length_cons] at hfuel
        have hfresh : key ∉ entries.map Prod.fst := by
          rw [List.map_append, List.nodup_append] at hkeys
          exact fun hmem => hkeys.2.2 key hmem key List.mem_cons_self rfl
        have hkeys' : (((entries ++ [(key, value)]) ++ more).map Prod.fst).Nodup := by
          rw [List.append_assoc]
          exact hkeys
        have hfollows : Follows (finish ++ 44 :: (inner ++ 125 :: rest)) :=
          hfinish.follows (follows_cons (by decide) _)
        have hstep := parse_entries_of_entry hbefore hname hafter hstart hvalue hfinish hfresh rfl
          (ihvalue hvalue (by omega) hfollows)
        rw [consume_char_of_ne (by decide), expect_comma] at hstep
        dsimp only at hstep
        rw [Except.ok_bind] at hstep
        dsimp only at hstep
        rw [ihentries hmore (by omega) _ rest hkeys'] at hstep
        simp only [List.append_assoc, List.cons_append, List.nil_append] at hstep ⊢
        exact hstep

theorem parse_of_isDocument {source : Bytes} (h : IsDocument numbers source value) :
    parse numbers source = .ok value := by
  obtain ⟨before, text, finish, hbefore, htext, hfinish, rfl⟩ := h
  have hend : skip_json_space finish = [] := by
    have hskip : skip_json_space (finish ++ []) = [] := hfinish.skip nofun
    rwa [List.append_nil] at hskip
  have hfollows : Follows finish := by
    have hspace : Follows (finish ++ []) := hfinish.follows nofun
    rwa [List.append_nil] at hspace
  have hfuel : text.length < (before ++ (text ++ finish)).length + 1 := by
    simp only [List.length_append]
    omega
  rw [parse, List.append_assoc, htext.skip hbefore, (IsValue.parse _).1 htext hfuel hfollows,
    Except.ok_bind]
  dsimp only
  rw [hend, if_pos rfl]

/-- **The parser accepts the documents of the grammar**, and returns their values. One direction
reads a derivation along the input; the other takes the parser's own calls apart, and each of them
is a production of the grammar. -/
theorem parse_eq_ok_iff {source : Bytes} :
    parse numbers source = .ok value ↔ IsDocument numbers source value :=
  ⟨isDocument_of_parse, parse_of_isDocument⟩

/-- A document has one value. -/
theorem IsDocument.unique {source : Bytes} (h : IsDocument numbers source value)
    {value' : Json numbers.Double} (h' : IsDocument numbers source value') : value = value' :=
  Except.ok.inj ((parse_of_isDocument h).symm.trans (parse_of_isDocument h'))

end Complete

/-! ### Strings in UTF-8 -/

section WellFormed

variable {numbers : NumberText} {text : Bytes} {value : Json numbers.Double}

mutual

/-- Every string of the value is in UTF-8, and every key. -/
def WellFormed {D : Type} : Json D → Prop
  | .string value => Utf8.Valid value
  | .array items => WellFormedItems items
  | .object entries => WellFormedEntries entries
  | _ => True

/-- `WellFormed` of every item. -/
def WellFormedItems {D : Type} : List (Json D) → Prop
  | [] => True
  | item :: items => WellFormed item ∧ WellFormedItems items

/-- `WellFormed` of every value, and the keys in UTF-8. -/
def WellFormedEntries {D : Type} : List (Bytes × Json D) → Prop
  | [] => True
  | (key, value) :: entries => Utf8.Valid key ∧ WellFormed value ∧ WellFormedEntries entries

end

theorem IsSpace.ascii {space : Bytes} (h : IsSpace space) : ∀ b ∈ space, b < 0x80 := by
  intro b hb
  have hspace := h b hb
  simp only [is_json_space, Bool.or_eq_true, beq_iff_eq] at hspace
  rcases hspace with ((rfl | rfl) | rfl) | rfl <;> decide

theorem IsHex4.ascii {digits : Bytes} {n : Nat} (h : IsHex4 digits n) : ∀ b ∈ digits, b < 0x80 := by
  have hlt : ∀ {b : UInt8} {n : Nat}, hex_digit b = some n → b < 0x80 := by
    intro b n hb
    rw [hex_digit] at hb
    split_ifs at hb with h1 h2 h3
    · exact UInt8.lt_of_le_of_lt h1.2 (by decide)
    · exact UInt8.lt_of_le_of_lt h2.2 (by decide)
    · exact UInt8.lt_of_le_of_lt h3.2 (by decide)
  obtain ⟨a, b, c, d, p, q, r, s, rfl, ha, hb, hc, hd, -⟩ := h
  intro e he
  simp only [List.mem_cons, List.not_mem_nil, or_false] at he
  rcases he with rfl | rfl | rfl | rfl
  · exact hlt ha
  · exact hlt hb
  · exact hlt hc
  · exact hlt hd

theorem escape_lt {c : Char} (hc : c.toNat.toUInt8 < 0x80) :
    ∀ b ∈ ascii ['\\', c], b < 0x80 :=
  List.forall_mem_cons.mpr ⟨by decide, List.forall_mem_singleton.mpr hc⟩

/-- **A string is in UTF-8 when the text between its quotes is**, behind whatever stands
there. -/
theorem StringBody.valid {body bytes : Bytes} (h : StringBody body bytes) (before : Bytes)
    (hvalid : Utf8.Valid (before ++ body)) : Utf8.Valid (before ++ bytes) := by
  -- an escape is a place to cut, and what it stands for is a character
  have hescape {before escape body bytes : Bytes} {c : Char}
      (ih : ∀ before : Bytes, Utf8.Valid (before ++ body) → Utf8.Valid (before ++ bytes))
      (hascii : ∀ b ∈ escape, b < 0x80) (hne : escape ≠ [])
      (hvalid : Utf8.Valid (before ++ (escape ++ body))) :
      Utf8.Valid (before ++ (String.utf8EncodeChar c ++ bytes)) := by
    rw [← List.append_assoc] at hvalid
    obtain ⟨hbefore, hbody⟩ := Utf8.Valid.append_ascii_iff hascii hne hvalid
    exact hbefore.append (Utf8.valid_encodeChar_append.mpr (ih [] hbody))
  have hmark : ∀ b ∈ ascii ['\\', 'u'], b < 0x80 := escape_lt (by decide)
  induction h generalizing before with
  | nil => exact hvalid
  | @unescaped b body bytes hcontrol hquote hplain hbody ih =>
    rw [List.append_cons] at hvalid ⊢
    exact ih _ hvalid
  | @escaped c n body bytes hmem hbody ih =>
    have hsimple : (∀ b ∈ ascii ['\\', c], b < 0x80) ∧
        [n.toUInt8] = String.utf8EncodeChar (Char.ofNat n) := by
      simp only [escapes, List.mem_cons, Prod.mk.injEq, List.not_mem_nil, or_false] at hmem
      rcases hmem with ⟨rfl, rfl⟩ | ⟨rfl, rfl⟩ | ⟨rfl, rfl⟩ | ⟨rfl, rfl⟩ | ⟨rfl, rfl⟩ |
        ⟨rfl, rfl⟩ | ⟨rfl, rfl⟩ | ⟨rfl, rfl⟩ <;>
        exact ⟨escape_lt (by decide), by decide⟩
    rw [← List.singleton_append, hsimple.2]
    exact hescape ih hsimple.1 (List.cons_ne_nil _ _) hvalid
  | @codepoint digits c body bytes hdigits hbody ih =>
    have hascii : ∀ b ∈ ascii ['\\', 'u'] ++ digits, b < 0x80 := by
      intro b hb
      rcases List.mem_append.mp hb with hb | hb
      · exact hmark b hb
      · exact hdigits.ascii b hb
    exact hescape ih hascii (List.cons_ne_nil _ _) hvalid
  | @pair high_digits low_digits high low c body bytes hhigh hlow h1 h2 h3 h4 hc hbody ih =>
    have hascii : ∀ b ∈ ascii ['\\', 'u'] ++ high_digits ++ ascii ['\\', 'u'] ++ low_digits,
        b < 0x80 := by
      intro b hb
      simp only [List.mem_append] at hb
      rcases hb with ((hb | hb) | hb) | hb
      · exact hmark b hb
      · exact hhigh.ascii b hb
      · exact hmark b hb
      · exact hlow.ascii b hb
    exact hescape ih hascii (List.cons_ne_nil _ _) hvalid

theorem IsString.valid {text bytes : Bytes} (h : IsString text bytes) (hvalid : Utf8.Valid text) :
    Utf8.Valid bytes := by
  obtain ⟨body, hbody, rfl⟩ := h
  have hquote : ∀ b ∈ ascii ['"'], b < 0x80 := List.forall_mem_singleton.mpr (by decide)
  have hinner := (Utf8.Valid.append_ascii_iff hquote (List.cons_ne_nil _ _)
    (show Utf8.Valid (ascii ['"'] ++ body ++ ascii ['"'] ++ []) by rwa [List.append_nil])).1
  exact hbody.valid [] ((Utf8.valid_of_ascii hquote).append_iff.mp hinner)

/-- What stands between texts of ASCII is in UTF-8 by itself. -/
theorem valid_between (before after : Bytes) {text : Bytes} (hbefore : ∀ b ∈ before, b < 0x80)
    (hafter : ∀ b ∈ after, b < 0x80) (h : Utf8.Valid (before ++ text ++ after)) :
    Utf8.Valid text := by
  have hfront : Utf8.Valid (before ++ text) := by
    by_cases hnil : after = []
    · rwa [hnil, List.append_nil] at h
    · rw [← List.append_nil (before ++ text ++ after)] at h
      exact (Utf8.Valid.append_ascii_iff hafter hnil h).1
  exact (Utf8.valid_of_ascii hbefore).append_iff.mp hfront

/-- A byte of ASCII is a place to cut. -/
theorem valid_split {text more : Bytes} {b : UInt8} (hb : b < 0x80)
    (h : Utf8.Valid (text ++ b :: more)) : Utf8.Valid text ∧ Utf8.Valid more := by
  rw [← List.singleton_append, ← List.append_assoc] at h
  exact Utf8.Valid.append_ascii_iff (by simpa using hb) (List.cons_ne_nil _ _) h

mutual

/-- **The strings of a value are in UTF-8 when its text is.** -/
theorem IsValue.wellFormed : ∀ {text : Bytes} {value : Json numbers.Double},
    IsValue numbers text value → Utf8.Valid text → WellFormed value
  | _, _, .null_literal, _ => trivial
  | _, _, .true_literal, _ => trivial
  | _, _, .false_literal, _ => trivial
  | _, _, .number hnumber, _ => by
    obtain ⟨negative, digits, fraction, exponent, -, -, -, hvalue, -⟩ := hnumber
    rw [token_value] at hvalue
    split at hvalue
    · obtain rfl := Option.some.inj hvalue
      trivial
    · obtain ⟨d, -, rfl⟩ := Option.map_eq_some_iff.mp hvalue
      trivial
  | _, _, .string hstring, hvalid => hstring.valid hvalid
  | _, _, .empty_array _, _ => trivial
  | _, _, .array hitems, hvalid =>
    hitems.wellFormed (valid_between [91] [93] (List.forall_mem_singleton.mpr (by decide))
      (List.forall_mem_singleton.mpr (by decide)) hvalid)
  | _, _, .empty_object _, _ => trivial
  | _, _, .object hentries _, hvalid =>
    hentries.wellFormed
      (valid_between [123] [125] (List.forall_mem_singleton.mpr (by decide))
        (List.forall_mem_singleton.mpr (by decide)) hvalid)

theorem IsItems.wellFormed : ∀ {text : Bytes} {items : List (Json numbers.Double)},
    IsItems numbers text items → Utf8.Valid text → WellFormedItems items
  | _, _, .last hbefore hvalue hafter, hvalid =>
    ⟨hvalue.wellFormed (valid_between _ _ hbefore.ascii hafter.ascii hvalid), trivial⟩
  | _, _, .cons hbefore hvalue hafter hmore, hvalid =>
    have hsplit := valid_split (by decide) hvalid
    ⟨hvalue.wellFormed (valid_between _ _ hbefore.ascii hafter.ascii hsplit.1),
      hmore.wellFormed hsplit.2⟩

theorem IsEntries.wellFormed : ∀ {text : Bytes} {entries : List (Bytes × Json numbers.Double)},
    IsEntries numbers text entries → Utf8.Valid text → WellFormedEntries entries
  | _, _, .last hbefore hname hafter hstart hvalue hfinish, hvalid =>
    have hsplit := valid_split (by decide) hvalid
    ⟨hname.valid (valid_between _ _ hbefore.ascii hafter.ascii hsplit.1),
      hvalue.wellFormed (valid_between _ _ hstart.ascii hfinish.ascii hsplit.2), trivial⟩
  | _, _, .cons hbefore hname hafter hstart hvalue hfinish hmore, hvalid =>
    have hsplit := valid_split (by decide) hvalid
    have hnext := valid_split (by decide) hsplit.2
    ⟨hname.valid (valid_between _ _ hbefore.ascii hafter.ascii hsplit.1),
      hvalue.wellFormed (valid_between _ _ hstart.ascii hfinish.ascii hnext.1),
      hmore.wellFormed hnext.2⟩

end

/-- **The strings of a document in UTF-8 are in UTF-8.** -/
theorem IsDocument.wellFormed {source : Bytes} (h : IsDocument numbers source value)
    (hvalid : Utf8.Valid source) : WellFormed value := by
  obtain ⟨before, text, after, hbefore, htext, hafter, rfl⟩ := h
  exact htext.wellFormed (valid_between _ _ hbefore.ascii hafter.ascii hvalid)

end WellFormed

/-- **The parser accepts the documents of its grammar and nothing else**: it returns the value
of a document, and throws for a text that is none. The grammar does not look at the bytes of a
string from 128 on; of the texts in UTF-8 it has the documents of RFC 8259, and the strings of
their values are in UTF-8. -/
theorem parse_iff_document (numbers : NumberText) (source : Bytes) :
    (∀ value, parse numbers source = .ok value ↔ IsDocument numbers source value) ∧
    ((∀ value, ¬IsDocument numbers source value) →
      ∃ failure, parse numbers source = .error failure) ∧
    (Utf8.Valid source → ∀ value,
      (parse numbers source = .ok value ↔ Rfc8259 numbers source value) ∧
      (parse numbers source = .ok value → WellFormed value)) := by
  refine ⟨fun _ => parse_eq_ok_iff, fun hnone => ?_, fun hvalid value => ⟨?_, fun h => ?_⟩⟩
  · cases hparse : parse numbers source with
    | error failure => exact ⟨failure, rfl⟩
    | ok value => exact absurd (parse_eq_ok_iff.mp hparse) (hnone value)
  · rw [parse_eq_ok_iff]
    exact ⟨fun h => ⟨h, hvalid⟩, fun h => h.1⟩
  · exact (parse_eq_ok_iff.mp h).wellFormed hvalid

/-- A string of one byte that no text in UTF-8 contains is accepted. -/
theorem parse_not_utf8 :
    ¬∀ (numbers : NumberText) (source : Bytes) (value : Json numbers.Double),
      parse numbers source = .ok value ↔ Rfc8259 numbers source value := by
  intro h
  have hparse : parse NumberText.integers [34, 0xFF, 34] = .ok (.string [0xFF]) := rfl
  have hvalid := ((h _ _ _).mp hparse).2
  have hstring : Utf8.Valid [0xFF] :=
    valid_between [34] [34] (List.forall_mem_singleton.mpr (by decide))
      (List.forall_mem_singleton.mpr (by decide)) hvalid
  exact absurd (hstring.boundary_zero 0xFF rfl) (by decide)

end Json

end Qwen38
