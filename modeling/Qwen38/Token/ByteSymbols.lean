import Qwen38.Lib.Utf8
import Qwen38.Text.JsonParse
import Qwen38.Token.Bpe
import Qwen38.Token.Vocabulary

/-!
# Bytes as symbols

The alphabet in which the tokens of the vocabulary are written: each byte is a character, the
graphic ones of ASCII their own and all others a character of two bytes
(`Qwen38.Token.byte_piece_eq_self`). Reading a token as symbols gives the bytes it was written for
(`Qwen38.Token.symbol_bytes_byte_piece`), when `utf8proc` reads UTF-8
(`Qwen38.Token.Utf8proc.Documented`).
-/

namespace Qwen38

namespace Token

/-! ### UTF-8 -/

/-- **What `utf8proc` is documented to do**: it reads the character a text begins with and refuses a
text that begins with none, and it composes texts that are UTF-8 only. -/
structure Utf8proc.Documented (unicode : Utf8proc) (nfc : Bytes → Bytes) : Prop where
  iterate : ∀ (c : Char) (rest : Bytes),
    unicode.iterate (String.utf8EncodeChar c ++ rest) = some (c.toNat, (String.utf8EncodeChar c).length)
  iterate_none : ∀ input : Bytes, (∀ c : Char, ¬String.utf8EncodeChar c <+: input) →
    unicode.iterate input = none
  compose : ∀ input : Bytes, Utf8.Valid input → unicode.compose input = .ok (nfc input)
  compose_error : ∀ input : Bytes, ¬Utf8.Valid input → ∃ message, unicode.compose input = .error message
  nfc_valid : ∀ input : Bytes, Utf8.Valid input → Utf8.Valid (nfc input)
  nfc_nil : nfc [] = []

section Codepoints

variable {unicode : Utf8proc} {nfc : Bytes → Bytes}

/-- The code point of a character. -/
def Utf8proc.codepoint (unicode : Utf8proc) (c : Char) : Codepoint :=
  ⟨c.toNat, String.utf8EncodeChar c, unicode.category c.toNat⟩

theorem utf8EncodeChar_ne_nil (c : Char) : String.utf8EncodeChar c ≠ [] :=
  List.length_pos_iff.mp (by simp [c.utf8Size_pos])

/-- **The code points of a text** are its characters. -/
theorem codepoints_flatMap (hdoc : unicode.Documented nfc) (m : List Char) :
    codepoints unicode (m.flatMap String.utf8EncodeChar) = .ok (m.map unicode.codepoint) := by
  induction m with
  | nil =>
    rw [List.flatMap_nil, codepoints, if_pos rfl]
    rfl
  | cons c m ih =>
    have hne : String.utf8EncodeChar c ++ m.flatMap String.utf8EncodeChar ≠ [] :=
      List.append_ne_nil_of_left_ne_nil (utf8EncodeChar_ne_nil c) _
    rw [List.flatMap_cons, codepoints, if_neg hne]
    split
    · next h =>
      rw [hdoc.iterate] at h
      cases h
    · next value size h =>
      rw [hdoc.iterate] at h
      obtain ⟨rfl, rfl⟩ := Prod.mk.inj (Option.some.inj h)
      rw [List.drop_left, ih, List.take_left]
      rfl

/-- A text with code points is UTF-8. -/
theorem exists_of_codepoints (hdoc : unicode.Documented nfc) {input : Bytes} {cps : List Codepoint}
    (h : codepoints unicode input = .ok cps) :
    ∃ m : List Char, input = m.flatMap String.utf8EncodeChar ∧ cps = m.map unicode.codepoint := by
  fun_induction codepoints unicode input generalizing cps with
  | case1 =>
    cases h
    exact ⟨[], rfl, rfl⟩
  | case2 => cases h
  | case3 input hne value size hiterate ih =>
    obtain ⟨rest, hrest, h⟩ := Except.bind_eq_ok.mp h
    cases h
    obtain ⟨m, hm, rfl⟩ := ih hrest
    by_cases hchar : ∃ c : Char, String.utf8EncodeChar c <+: input
    · obtain ⟨c, tail, rfl⟩ := hchar
      rw [hdoc.iterate] at hiterate
      obtain ⟨rfl, rfl⟩ := Prod.mk.inj (Option.some.inj hiterate)
      rw [List.drop_left] at hm
      subst hm
      refine ⟨c :: m, (List.flatMap_cons ..).symm, ?_⟩
      rw [List.take_left]
      rfl
    · rw [hdoc.iterate_none input (not_exists.mp hchar)] at hiterate
      cases hiterate

end Codepoints

/-! ### The alphabet -/

/-- A graphic byte of ASCII. -/
def graphic (byte : UInt8) : Bool := 33 ≤ byte.toNat && byte.toNat ≤ 126

/-- Bytes that stand for themselves do so, and each of the others has one more before it. -/
theorem symbol_injective : Function.Injective symbol := by
  have hlt : ∀ a b : UInt8, direct a.toNat = false → a.toNat < b.toNat →
      (List.range a.toNat).countP (fun value => !direct value) <
        (List.range b.toNat).countP fun value => !direct value := by
    intro a b ha hab
    have hsub : (List.range (a.toNat + 1)).Sublist (List.range b.toNat) := List.range_sublist.mpr hab
    refine Nat.lt_of_lt_of_le ?_ (List.Sublist.countP_le hsub)
    rw [List.range_succ, List.countP_append]
    simp [ha]
  intro a b h
  have ha := a.toNat_lt
  have hb := b.toNat_lt
  rw [symbol, symbol] at h
  refine UInt8.toNat_inj.mp ?_
  split_ifs at h with hdirect hdirect' hdirect'
  · exact h
  · omega
  · omega
  · rw [Bool.not_eq_true] at hdirect hdirect'
    rcases Nat.lt_trichotomy a.toNat b.toNat with hab | hab | hab
    · have hcount := hlt a b hdirect hab
      omega
    · exact hab
    · have hcount := hlt b a hdirect' hab
      omega

/-- **The table is read back.** -/
theorem symbol_to_byte_symbol (byte : UInt8) : symbol_to_byte (symbol byte) = some byte := by
  have hmem : byte ∈ (List.range 256).map Nat.toUInt8 :=
    List.mem_map.mpr ⟨byte.toNat, List.mem_range.mpr byte.toNat_lt, UInt8.ofNat_toNat⟩
  rw [symbol_to_byte]
  rcases hfind : ((List.range 256).map Nat.toUInt8).find? fun other => symbol other = symbol byte with _ | found
  · have hnone := List.find?_eq_none.mp hfind byte hmem
    exact absurd (decide_eq_true rfl) hnone
  · have hsame := List.find?_some (p := fun other => decide (symbol other = symbol byte)) hfind
    rw [symbol_injective (of_decide_eq_true hsame)]

theorem symbol_of_symbol_to_byte {value : Nat} {byte : UInt8} (h : symbol_to_byte value = some byte) :
    symbol byte = value := by
  have hfound := List.find?_some (p := fun other => decide (symbol other = value)) h
  exact of_decide_eq_true hfound

/-- The character of a byte. -/
def symbol_char (byte : UInt8) : Char := Char.ofNat (symbol byte)

theorem toNat_symbol_char (byte : UInt8) : (symbol_char byte).toNat = symbol byte := by
  have hlt := symbol_lt byte
  have hvalid : (symbol byte).isValidChar := Or.inl (by omega)
  rw [symbol_char, Char.ofNat, dif_pos hvalid]
  rfl

theorem byte_to_symbol_eq (byte : UInt8) :
    byte_to_symbol byte = String.utf8EncodeChar (symbol_char byte) := by
  rw [byte_to_symbol, utf8, ← Json.utf8_of_codepoint_toNat, toNat_symbol_char]

theorem byte_piece_eq (piece : Bytes) :
    byte_piece piece = (piece.map symbol_char).flatMap String.utf8EncodeChar := by
  rw [byte_piece, List.flatMap_map]
  exact List.flatMap_congr fun byte _ => byte_to_symbol_eq byte

section Pieces

variable {unicode : Utf8proc} {nfc : Bytes → Bytes}

/-- The code points of a piece that is written in symbols. -/
theorem codepoints_byte_piece (hdoc : unicode.Documented nfc) (piece : Bytes) :
    codepoints unicode (byte_piece piece) =
      .ok (piece.map fun byte => unicode.codepoint (symbol_char byte)) := by
  rw [byte_piece_eq, codepoints_flatMap hdoc, List.map_map]
  rfl

/-- **A token in symbols is read as its bytes**, for any bytes, valid UTF-8 or not. Each byte has a
symbol of its own, and the table of the decoder is the inverse of that of the encoder. -/
theorem symbol_bytes_byte_piece (unicode : Utf8proc) (piece : Bytes) :
    Tokenizer.symbol_bytes (piece.map fun byte => unicode.codepoint (symbol_char byte)) = .ok piece := by
  induction piece with
  | nil => rfl
  | cons byte piece ih =>
    rw [Tokenizer.symbol_bytes] at ih ⊢
    rw [List.map_cons, List.mapM_cons, ih]
    dsimp only [Utf8proc.codepoint]
    rw [toNat_symbol_char, symbol_to_byte_symbol]
    rfl

theorem byte_piece_inj (hdoc : unicode.Documented nfc) {piece piece' : Bytes}
    (h : byte_piece piece = byte_piece piece') : piece = piece' := by
  have hcps := (codepoints_byte_piece hdoc piece).symm.trans (h ▸ codepoints_byte_piece hdoc piece')
  have hbytes := symbol_bytes_byte_piece unicode piece
  rw [Except.ok.inj hcps, symbol_bytes_byte_piece] at hbytes
  exact (Except.ok.inj hbytes).symm

end Pieces

/-! ### Graphic bytes -/

theorem symbol_of_graphic {byte : UInt8} (h : graphic byte = true) : symbol byte = byte.toNat := by
  rw [graphic, Bool.and_eq_true, decide_eq_true_eq, decide_eq_true_eq] at h
  have hdirect : direct byte.toNat = true := by
    simp [direct, h.1, h.2]
  rw [symbol, if_pos hdirect]

theorem le_symbol_of_not_graphic {byte : UInt8} (h : graphic byte = false) : 128 ≤ symbol byte := by
  rw [symbol]
  split
  · next hdirect =>
    simp only [direct, graphic, Bool.or_eq_true, Bool.and_eq_true, decide_eq_true_eq,
      Bool.and_eq_false_iff, decide_eq_false_iff_not] at hdirect h
    omega
  · omega

theorem byte_to_symbol_of_graphic {byte : UInt8} (h : graphic byte = true) :
    byte_to_symbol byte = [byte] := by
  have hbound := h
  rw [graphic, Bool.and_eq_true, decide_eq_true_eq, decide_eq_true_eq] at hbound
  rw [byte_to_symbol, symbol_of_graphic h, utf8, Json.utf8_of_codepoint, if_pos (by omega)]
  exact congrArg (fun b => [b]) UInt8.ofNat_toNat

/-- The character of any other byte is no graphic ASCII. -/
theorem exists_byte_to_symbol_of_not_graphic {byte : UInt8} (h : graphic byte = false) :
    ∃ first ∈ byte_to_symbol byte, graphic first = false := by
  have hge := le_symbol_of_not_graphic h
  have hlt := symbol_lt byte
  rw [byte_to_symbol, utf8, Json.utf8_of_codepoint, if_neg (by omega), if_pos (by omega)]
  refine ⟨_, List.mem_cons_self, ?_⟩
  have hbound : 0xC0 + symbol byte / 0x40 < UInt8.size := by
    rw [UInt8.size]
    omega
  have hvalue : (0xC0 + symbol byte / 0x40).toUInt8.toNat = 0xC0 + symbol byte / 0x40 :=
    UInt8.toNat_ofNat_of_lt' hbound
  rw [graphic, hvalue]
  simp only [Bool.and_eq_false_iff, decide_eq_false_iff_not]
  omega

theorem length_byte_to_symbol_of_not_graphic {byte : UInt8} (h : graphic byte = false) :
    (byte_to_symbol byte).length = 2 := by
  have hge := le_symbol_of_not_graphic h
  have hlt := symbol_lt byte
  rw [byte_to_symbol, utf8, Json.utf8_of_codepoint, if_neg (by omega), if_pos (by omega)]
  rfl

/-- **A piece of graphic bytes** is its own symbols: these bytes stand for themselves in the table,
so that it does not matter whether they are read as symbols or as they are. -/
theorem byte_piece_eq_self {piece : Bytes} (h : ∀ byte ∈ piece, graphic byte = true) :
    byte_piece piece = piece := by
  induction piece with
  | nil => rfl
  | cons byte piece ih =>
    obtain ⟨hbyte, hpiece⟩ := List.forall_mem_cons.mp h
    rw [byte_piece, List.flatMap_cons, byte_to_symbol_of_graphic hbyte]
    exact congrArg (byte :: ·) (ih hpiece)

/-- Symbols make no piece shorter, and a piece that they do not make longer is graphic. -/
theorem length_byte_piece (piece : Bytes) : piece.length ≤ (byte_piece piece).length ∧
    ((byte_piece piece).length ≤ piece.length → ∀ byte ∈ piece, graphic byte = true) := by
  induction piece with
  | nil => exact ⟨Nat.le_refl _, fun _ => List.forall_mem_nil _⟩
  | cons byte piece ih =>
    obtain ⟨hle, hgraphic⟩ := ih
    have hlength : (byte_piece (byte :: piece)).length =
        (byte_to_symbol byte).length + (byte_piece piece).length := List.length_append
    rw [hlength, List.length_cons]
    cases hbyte : graphic byte with
    | true =>
      rw [byte_to_symbol_of_graphic hbyte, List.length_singleton]
      refine ⟨by omega, fun h => List.forall_mem_cons.mpr ⟨hbyte, hgraphic (by omega)⟩⟩
    | false =>
      rw [length_byte_to_symbol_of_not_graphic hbyte]
      exact ⟨by omega, fun h => by omega⟩

end Token

end Qwen38
