import Mathlib.Data.List.Sort
import Qwen38.Text.Bytes

/-!
# JSON values, parsing and printing

The recursive-descent parser and the printer of the server's own JSON type. A parser
position is the list of the bytes that remain, so `cursor_` is the length of the source
less the length of the remainder, which is what a parse error prints.

Nesting is bounded by nothing but the call stack in the source; here the functions that
recurse into a value take a fuel, and `Json.parse` supplies one more than the length of
the document, which no document can use up: every level of nesting consumes a bracket.

Conversions between decimal text and `double` are the C library's (`strtod`,
`std::to_chars`). They are a parameter, `NumberText`: the type of the finite doubles, the
reading of a whole token, and the printing.
-/

namespace Qwen38

/-- The C library's conversions between decimal text and finite doubles. -/
structure NumberText where
  /-- The finite doubles. -/
  Double : Type
  /-- `strtod` on a whole token: `none` when it does not read all of it, or the value is
  not finite. -/
  strtod : Bytes → Option Double
  /-- `std::to_chars` in general format with 17 significant digits. -/
  to_chars : Double → Bytes

/-- A library that reads no fractions: every double is an integer, and printed as one. -/
def NumberText.integers : NumberText where
  Double := Int
  strtod := fun _ => none
  to_chars := fun value => ascii (toString value).toList

/-- A JSON value. An object is its entries in order of insertion, with distinct keys. -/
inductive Json (D : Type)
  | null
  | boolean (value : Bool)
  | integer (value : Int)
  | number (value : D)
  | string (value : Bytes)
  | array (items : List (Json D))
  | object (entries : List (Bytes × Json D))

namespace Json

variable {D : Type}

/-! ### Access -/

/-- `find`: the value of a key, when the value is an object and has it. -/
def find (value : Json D) (key : Bytes) : Option (Json D) :=
  match value with
  | .object entries => entries.lookup key
  | _ => none

/-- `as_string`, `none` where the source throws. -/
def as_string : Json D → Option Bytes
  | .string value => some value
  | _ => none

/-! ### Parsing -/

/-- A parse failure: how many bytes remained, and the message. -/
structure Failure where
  remaining : Nat
  message : String

/-- The text of the exception for a document of `size` bytes. -/
def Failure.what (failure : Failure) (size : Nat) : String :=
  "JSON parse error at byte " ++ toString (size - failure.remaining) ++ ": " ++ failure.message

/-- A parsing function: from the remaining bytes, a value and what remains after it. -/
abbrev Parser (α : Type) := Bytes → Except Failure (α × Bytes)

/-- `fail` at the current position. -/
def fail {α : Type} (rest : Bytes) (message : String) : Except Failure α :=
  .error ⟨rest.length, message⟩

/-- The white space of JSON, which is less than `isspace`. -/
def is_json_space (b : UInt8) : Bool := b == 32 || b == 9 || b == 10 || b == 13

/-- `Parser::skip_space`. -/
def skip_json_space (rest : Bytes) : Bytes := rest.dropWhile is_json_space

/-- `Parser::consume` of one character. -/
def consume_char (c : Char) (rest : Bytes) : Option Bytes := consume rest (ascii [c])

/-- `expect`. -/
def expect (c : Char) : Parser Unit := fun rest =>
  match consume_char c rest with
  | some rest => .ok ((), rest)
  | none => fail rest ("expected '" ++ c.toString ++ "'")

/-- `expect_literal`, with the value the literal stands for. -/
def expect_literal (literal : List Char) (value : Json D) : Parser (Json D) := fun rest =>
  match consume rest (ascii literal) with
  | some rest => .ok (value, rest)
  | none => fail rest "invalid literal"

/-- `append_utf8`, for the code points an escape can name. -/
def utf8_of_codepoint (codepoint : Nat) : Bytes :=
  if codepoint ≤ 0x7F then [codepoint.toUInt8]
  else if codepoint ≤ 0x7FF then
    [(0xC0 + codepoint / 0x40).toUInt8, (0x80 + codepoint % 0x40).toUInt8]
  else if codepoint ≤ 0xFFFF then
    [(0xE0 + codepoint / 0x1000).toUInt8, (0x80 + codepoint / 0x40 % 0x40).toUInt8,
      (0x80 + codepoint % 0x40).toUInt8]
  else
    [(0xF0 + codepoint / 0x40000).toUInt8, (0x80 + codepoint / 0x1000 % 0x40).toUInt8,
      (0x80 + codepoint / 0x40 % 0x40).toUInt8, (0x80 + codepoint % 0x40).toUInt8]

/-- The value of a hexadecimal digit, of either case. -/
def hex_digit (b : UInt8) : Option Nat :=
  if 48 ≤ b ∧ b ≤ 57 then some (b.toNat - 48)
  else if 97 ≤ b ∧ b ≤ 102 then some (b.toNat - 97 + 10)
  else if 65 ≤ b ∧ b ≤ 70 then some (b.toNat - 65 + 10)
  else none

/-- The digits of `parse_hex4`, most significant first; the cursor has passed the digit
that is refused. -/
def hex_digits : Nat → Nat → Parser Nat
  | 0, value, rest => .ok (value, rest)
  | n + 1, value, rest =>
    match rest with
    | [] => fail rest "incomplete Unicode escape"
    | b :: rest =>
      match hex_digit b with
      | some digit => hex_digits n (value * 16 + digit) rest
      | none => fail rest "invalid Unicode escape"

/-- `parse_hex4`. -/
def parse_hex4 : Parser Nat := fun rest =>
  if rest.length < 4 then fail rest "incomplete Unicode escape" else hex_digits 4 0 rest

/-- The code point of a `\u` escape, a surrogate pair taken together. -/
def parse_codepoint : Parser Nat := fun rest => do
  let (codepoint, rest) ← parse_hex4 rest
  if 0xD800 ≤ codepoint ∧ codepoint ≤ 0xDBFF then
    match (consume_char '\\' rest).bind (consume_char 'u') with
    | none =>
      -- a backslash has been consumed by then
      fail ((consume_char '\\' rest).getD rest) "high surrogate without low surrogate"
    | some rest => do
      let (low, rest) ← parse_hex4 rest
      if low < 0xDC00 ∨ 0xDFFF < low then fail rest "invalid low surrogate"
      else .ok (0x10000 + (codepoint - 0xD800) * 0x400 + (low - 0xDC00), rest)
  else if 0xDC00 ≤ codepoint ∧ codepoint ≤ 0xDFFF then fail rest "unexpected low surrogate"
  else .ok (codepoint, rest)

/-- The byte a one-character escape stands for. -/
def simple_escape (b : UInt8) : Option UInt8 :=
  if b = 34 then some 34            -- '"'
  else if b = 92 then some 92       -- '\\'
  else if b = 47 then some 47       -- '/'
  else if b = 98 then some 8        -- 'b'
  else if b = 102 then some 12      -- 'f'
  else if b = 110 then some 10      -- 'n'
  else if b = 114 then some 13      -- 'r'
  else if b = 116 then some 9       -- 't'
  else none

/-- The loop of `parse_string` after the opening quote. Each round consumes a byte, so
the length of the remainder is fuel enough. -/
def parse_string_loop : Nat → Bytes → Parser Bytes
  | 0, _, rest => fail rest "unterminated string"
  | fuel + 1, output, rest =>
    match rest with
    | [] => fail rest "unterminated string"
    | c :: rest =>
      if c = 34 then .ok (output, rest)
      else if c < 0x20 then fail rest "unescaped control character"
      else if c ≠ 92 then parse_string_loop fuel (output ++ [c]) rest
      else match rest with
        | [] => fail rest "incomplete escape"
        | escaped :: rest =>
          if escaped = 117 then do
            let (codepoint, rest) ← parse_codepoint rest
            parse_string_loop fuel (output ++ utf8_of_codepoint codepoint) rest
          else match simple_escape escaped with
            | some b => parse_string_loop fuel (output ++ [b]) rest
            | none => fail rest "invalid escape"

/-- `parse_string`. -/
def parse_string : Parser Bytes := fun rest => do
  let (_, rest) ← expect '"' rest
  parse_string_loop (rest.length + 1) [] rest

/-- Is the byte a decimal digit? -/
def is_digit (b : UInt8) : Bool := 48 ≤ b && b ≤ 57

/-- A run of digits that must not be empty: `fraction requires digits` and
`exponent requires digits`. -/
def digit_run (message : String) : Parser Bytes := fun rest =>
  match rest.takeWhile is_digit with
  | [] => fail rest message
  | digits => .ok (digits, rest.dropWhile is_digit)

/-- The integer part of a number: `0`, or digits that do not start with `0`. -/
def integer_part : Parser Bytes := fun rest =>
  match consume_char '0' rest with
  | some after =>
    match after with
    | [] => .ok (ascii ['0'], after)
    | b :: _ => if is_digit b then fail after "leading zero in number" else .ok (ascii ['0'], after)
  | none => digit_run "invalid number" rest

/-- The value of a string of digits. -/
def digits_value (digits : Bytes) : Nat :=
  digits.foldl (fun value b => value * 10 + (b.toNat - 48)) 0

/-- `std::from_chars` into `std::int64_t` on a token that is an optional minus and
digits: `none` outside the range of the type. -/
def from_chars (negative : Bool) (digits : Bytes) : Option Int :=
  let value : Int := if negative then -(digits_value digits : Int) else digits_value digits
  if -2 ^ 63 ≤ value ∧ value < 2 ^ 63 then some value else none

/-- `parse_number`. -/
def parse_number (numbers : NumberText) : Parser (Json numbers.Double) := fun rest => do
  let (minus, rest) ← match consume_char '-' rest with
    | some after => if after = [] then fail after "incomplete number" else .ok (ascii ['-'], after)
    | none => .ok ([], rest)
  let (digits, rest) ← integer_part rest
  let (fraction, rest) ← match consume_char '.' rest with
    | some after => do
      let (digits, after) ← digit_run "fraction requires digits" after
      .ok (ascii ['.'] ++ digits, after)
    | none => .ok ([], rest)
  let (exponent, rest) ← match rest with
    | e :: after =>
      if e = 101 ∨ e = 69 then do
        let (sign, after) := match after with
          | s :: after' => if s = 43 ∨ s = 45 then ([s], after') else ([], after)
          | [] => ([], after)
        let (digits, after) ← digit_run "exponent requires digits" after
        .ok (e :: sign ++ digits, after)
      else .ok ([], rest)
    | [] => .ok ([], rest)
  let integer := if fraction = [] ∧ exponent = [] then from_chars (minus ≠ []) digits else none
  match integer with
  | some value => .ok (.integer value, rest)
  | none =>
    match numbers.strtod (minus ++ digits ++ fraction ++ exponent) with
    | some value => .ok (.number value, rest)
    | none => fail rest "number is out of range"

mutual

/-- `parse_value`. -/
def parse_value (numbers : NumberText) : Nat → Parser (Json numbers.Double)
  | 0, rest => fail rest "expected a value"
  | fuel + 1, rest =>
    match rest with
    | [] => fail rest "expected a value"
    | c :: _ =>
      if c = 110 then expect_literal ['n', 'u', 'l', 'l'] .null rest
      else if c = 116 then expect_literal ['t', 'r', 'u', 'e'] (.boolean true) rest
      else if c = 102 then expect_literal ['f', 'a', 'l', 's', 'e'] (.boolean false) rest
      else if c = 34 then (parse_string rest).map fun (value, rest) => (.string value, rest)
      else if c = 91 then do
        let (_, rest) ← expect '[' rest
        let rest := skip_json_space rest
        match consume_char ']' rest with
        | some rest => .ok (.array [], rest)
        | none => parse_items numbers fuel [] rest
      else if c = 123 then do
        let (_, rest) ← expect '\x7b' rest
        let rest := skip_json_space rest
        match consume_char '\x7d' rest with
        | some rest => .ok (.object [], rest)
        | none => parse_entries numbers fuel [] rest
      else if c = 45 ∨ is_digit c then parse_number numbers rest
      else fail rest "unexpected token"

/-- The loop of `parse_array`. -/
def parse_items (numbers : NumberText) :
    Nat → List (Json numbers.Double) → Parser (Json numbers.Double)
  | 0, _, rest => fail rest "expected a value"
  | fuel + 1, items, rest => do
    let (item, rest) ← parse_value numbers fuel (skip_json_space rest)
    let rest := skip_json_space rest
    match consume_char ']' rest with
    | some rest => .ok (.array (items ++ [item]), rest)
    | none => do
      let (_, rest) ← expect ',' rest
      parse_items numbers fuel (items ++ [item]) rest

/-- The loop of `parse_object`. -/
def parse_entries (numbers : NumberText) :
    Nat → List (Bytes × Json numbers.Double) → Parser (Json numbers.Double)
  | 0, _, rest => fail rest "expected an object key"
  | fuel + 1, entries, rest => do
    let rest := skip_json_space rest
    if rest.head? ≠ some 34 then fail rest "expected an object key"
    else do
      let (key, rest) ← parse_string rest
      let (_, rest) ← expect ':' (skip_json_space rest)
      let (value, rest) ← parse_value numbers fuel (skip_json_space rest)
      if (entries.lookup key).isSome then fail rest "duplicate object key"
      else
        let rest := skip_json_space rest
        match consume_char '\x7d' rest with
        | some rest => .ok (.object (entries ++ [(key, value)]), rest)
        | none => do
          let (_, rest) ← expect ',' rest
          parse_entries numbers fuel (entries ++ [(key, value)]) rest

end

/-- `Json::parse`: one value with white space around it, and nothing else. -/
def parse (numbers : NumberText) (source : Bytes) : Except Failure (Json numbers.Double) := do
  let (value, rest) ← parse_value numbers (source.length + 1) (skip_json_space source)
  let rest := skip_json_space rest
  if rest = [] then .ok value else fail rest "unexpected trailing input"

/-! ### Printing -/

/-- One digit of `quote_json_string`'s escapes. -/
def lower_hex (n : Nat) : UInt8 := if n < 10 then (48 + n).toUInt8 else (87 + n).toUInt8

/-- How `quote_json_string` writes one byte. -/
def quote_byte (b : UInt8) : Bytes :=
  if b = 34 then ascii ['\\', '"']
  else if b = 92 then ascii ['\\', '\\']
  else if b = 8 then ascii ['\\', 'b']
  else if b = 12 then ascii ['\\', 'f']
  else if b = 10 then ascii ['\\', 'n']
  else if b = 13 then ascii ['\\', 'r']
  else if b = 9 then ascii ['\\', 't']
  else if b < 0x20 then
    ascii ['\\', 'u', '0', '0'] ++ [lower_hex (b.toNat / 16), lower_hex (b.toNat % 16)]
  else [b]

/-- `quote_json_string`. -/
def quote_json_string (input : Bytes) : Bytes := ascii ['"'] ++ input.flatMap quote_byte ++ ascii ['"']

/-- `std::to_string` of an integer. -/
def integer_text (value : Int) : Bytes := ascii (toString value).toList

/-- The pieces joined by commas. -/
def comma_separated (pieces : List Bytes) : Bytes := (pieces.intersperse (ascii [','])).flatten

mutual

/-- `dump`, with the keys of every object in lexicographic order. -/
def dump (numbers : NumberText) : Json numbers.Double → Bytes
  | .null => ascii ['n', 'u', 'l', 'l']
  | .boolean true => ascii ['t', 'r', 'u', 'e']
  | .boolean false => ascii ['f', 'a', 'l', 's', 'e']
  | .integer value => integer_text value
  | .number value => numbers.to_chars value
  | .string value => quote_json_string value
  | .array items => ascii ['['] ++ comma_separated (dump_items numbers items) ++ ascii [']']
  | .object entries =>
    let sorted := (dump_entries numbers entries).mergeSort fun a b => decide (a.1 ≤ b.1)
    ascii ['\x7b'] ++
      comma_separated (sorted.map fun (key, text) => quote_json_string key ++ ascii [':'] ++ text) ++
      ascii ['\x7d']

/-- The texts of the items of an array. -/
def dump_items (numbers : NumberText) : List (Json numbers.Double) → List Bytes
  | [] => []
  | item :: items => dump numbers item :: dump_items numbers items

/-- The keys of an object with the texts of their values. -/
def dump_entries (numbers : NumberText) : List (Bytes × Json numbers.Double) → List (Bytes × Bytes)
  | [] => []
  | (key, value) :: entries => (key, dump numbers value) :: dump_entries numbers entries

end

end Json

end Qwen38
