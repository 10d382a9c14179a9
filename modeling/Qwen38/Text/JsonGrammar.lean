import Qwen38.Lib.Utf8
import Qwen38.Text.JsonText

/-!
# The grammar of JSON

Which texts are JSON documents, and of which values, as RFC 8259 has it: white space around
tokens, literals, numbers without superfluous zeros, strings without control characters,
escapes whose surrogates are paired, arrays, and objects, here with distinct keys. It is a
grammar of bytes, as the parser's source is: a byte from 128 on stands for itself in a
string, and that a document is well-formed UTF-8 is a condition of its own
(`Qwen38.Json.Rfc8259`).

A number stands for what it is as a whole number of the machine, when it is written as a
whole number and in the range of the type, and else for what the library reads.
-/

namespace Qwen38

namespace Json

/-! ### Strings -/

/-- Four hexadecimal digits. -/
def IsHex4 (digits : Bytes) (value : Nat) : Prop :=
  ∃ a b c d p q r s, digits = [a, b, c, d] ∧ hex_digit a = some p ∧ hex_digit b = some q ∧
    hex_digit c = some r ∧ hex_digit d = some s ∧ value = ((p * 16 + q) * 16 + r) * 16 + s

/-- The escapes of one character. -/
def escapes : List (Char × Nat) :=
  [('"', 34), ('\\', 92), ('/', 47), ('b', 8), ('f', 12), ('n', 10), ('r', 13), ('t', 9)]

/-- The bytes between the quotes of a string, and the bytes of the string. -/
inductive StringBody : Bytes → Bytes → Prop
  | nil : StringBody [] []
  | unescaped {b : UInt8} {body value : Bytes} :
      0x20 ≤ b → b ≠ 34 → b ≠ 92 → StringBody body value → StringBody (b :: body) (b :: value)
  | escaped {c : Char} {n : Nat} {body value : Bytes} :
      (c, n) ∈ escapes → StringBody body value →
      StringBody (ascii ['\\', c] ++ body) (n.toUInt8 :: value)
  | codepoint {digits : Bytes} {c : Char} {body value : Bytes} :
      IsHex4 digits c.toNat → StringBody body value →
      StringBody (ascii ['\\', 'u'] ++ digits ++ body) (String.utf8EncodeChar c ++ value)
  | pair {high_digits low_digits : Bytes} {high low : Nat} {c : Char} {body value : Bytes} :
      IsHex4 high_digits high → IsHex4 low_digits low →
      0xD800 ≤ high → high ≤ 0xDBFF → 0xDC00 ≤ low → low ≤ 0xDFFF →
      c.toNat = 0x10000 + (high - 0xD800) * 0x400 + (low - 0xDC00) → StringBody body value →
      StringBody (ascii ['\\', 'u'] ++ high_digits ++ ascii ['\\', 'u'] ++ low_digits ++ body)
        (String.utf8EncodeChar c ++ value)

/-- A quoted string. -/
def IsString (text value : Bytes) : Prop :=
  ∃ body, StringBody body value ∧ text = ascii ['"'] ++ body ++ ascii ['"']

/-! ### Values -/

/-- White space, or none. -/
def IsSpace (space : Bytes) : Prop := ∀ b ∈ space, is_json_space b = true

/-- A number. -/
def IsNumber (numbers : NumberText) (text : Bytes) (value : Json numbers.Double) : Prop :=
  ∃ negative digits fraction exponent, IsDigits digits ∧ IsFraction fraction ∧ IsExp exponent ∧
    token_value numbers negative digits fraction exponent = some value ∧
    text = (if negative then ascii ['-'] else []) ++ digits ++ fraction ++ exponent

mutual

/-- A text and the value it stands for. -/
inductive IsValue (numbers : NumberText) : Bytes → Json numbers.Double → Prop
  | null_literal : IsValue numbers (ascii ['n', 'u', 'l', 'l']) .null
  | true_literal : IsValue numbers (ascii ['t', 'r', 'u', 'e']) (.boolean true)
  | false_literal : IsValue numbers (ascii ['f', 'a', 'l', 's', 'e']) (.boolean false)
  | number {text value} : IsNumber numbers text value → IsValue numbers text value
  | string {text value} : IsString text value → IsValue numbers text (.string value)
  | empty_array {space} : IsSpace space → IsValue numbers (91 :: space ++ [93]) (.array [])
  | array {text items} : IsItems numbers text items →
      IsValue numbers (91 :: text ++ [93]) (.array items)
  | empty_object {space} : IsSpace space → IsValue numbers (123 :: space ++ [125]) (.object [])
  | object {text entries} : IsEntries numbers text entries → (entries.map Prod.fst).Nodup →
      IsValue numbers (123 :: text ++ [125]) (.object entries)

/-- The items of an array, with commas between them. -/
inductive IsItems (numbers : NumberText) : Bytes → List (Json numbers.Double) → Prop
  | last {before text after item} : IsSpace before → IsValue numbers text item → IsSpace after →
      IsItems numbers (before ++ text ++ after) [item]
  | cons {before text after item rest items} :
      IsSpace before → IsValue numbers text item → IsSpace after → IsItems numbers rest items →
      IsItems numbers (before ++ text ++ after ++ 44 :: rest) (item :: items)

/-- The entries of an object, with commas between them. -/
inductive IsEntries (numbers : NumberText) : Bytes → List (Bytes × Json numbers.Double) → Prop
  | last {before name key after start text value finish} :
      IsSpace before → IsString name key → IsSpace after →
      IsSpace start → IsValue numbers text value → IsSpace finish →
      IsEntries numbers (before ++ name ++ after ++ 58 :: (start ++ text ++ finish)) [(key, value)]
  | cons {before name key after start text value finish rest entries} :
      IsSpace before → IsString name key → IsSpace after →
      IsSpace start → IsValue numbers text value → IsSpace finish →
      IsEntries numbers rest entries →
      IsEntries numbers (before ++ name ++ after ++ 58 :: (start ++ text ++ finish ++ 44 :: rest))
        ((key, value) :: entries)

end

/-- **A document**: a value with white space around it. -/
def IsDocument (numbers : NumberText) (source : Bytes) (value : Json numbers.Double) : Prop :=
  ∃ before text after, IsSpace before ∧ IsValue numbers text value ∧ IsSpace after ∧
    source = before ++ text ++ after

/-- **A document of RFC 8259**, which is one in UTF-8. -/
def Rfc8259 (numbers : NumberText) (source : Bytes) (value : Json numbers.Double) : Prop :=
  IsDocument numbers source value ∧ Utf8.Valid source

end Json

end Qwen38
