import Qwen38.Token.AddedTokens
import Qwen38.Token.ByteVocabulary
import Qwen38.Token.Pretokenize

/-!
# Encoding and decoding

`encode_ordinary`, and what `decode` makes of the IDs of a text.

A byte goes to its symbol and back, and the symbols that `bpe` joins are tokens. The way back is
chosen by the ID alone: the token of a special ID is taken as it stands, and every other one is read
as symbols. An added token that is not special is read so too, although it was never written in
symbols; and the symbols of an ordinary text may be a special token. Both come out right where the
token is graphic ASCII, which is the same in either reading, and only there
(`Qwen38.Token.round_trips_iff`).

An ordinary text never becomes shorter on its way, and an added token never longer. So, where the
added tokens of a text come back, a text that comes back does so segment by segment. That an added
token that is cut short might be made up for by an ordinary text that is drawn out is not ruled out
here.
-/

namespace Qwen38

namespace Token

open AddedTokens (Specials Segment Splits Taken Encodes emit)

/-! ### Ordinary text -/

section Encode

variable (buckets : UnorderedMap.BucketOrder Bytes) (unicode : Utf8proc) (tokenizer : Tokenizer)
  (caches : Bytes → UnorderedMap Bytes (List Bytes))

/-- The ID of a symbol of `bpe`. -/
def symbol_id (symbol : Bytes) : Except String UInt32 :=
  match tokenizer.token_to_id.lookup symbol with
  | some id => .ok id
  | none => .error "BPE emitted an unknown token"

/-- The IDs of a piece, with `bpe_cache_` as the call for it finds it. -/
def encode_piece (piece : Bytes) : Except String (List UInt32) := do
  let symbols ← (bpe buckets unicode tokenizer.merge_rank (caches piece) (byte_piece piece)).1
  symbols.mapM (symbol_id tokenizer)

/-- `encode_ordinary`. -/
def encode_ordinary (text : Bytes) : Except String (List UInt32) := do
  let normalized ← normalize_nfc unicode text
  let pieces ← pretokenize unicode normalized
  let ids ← pieces.mapM (encode_piece buckets unicode tokenizer caches)
  .ok ids.flatten

end Encode

/-! ### What should come back -/

/-- Every byte has a token, and every pair that a rule joins. -/
structure Tokenizer.Complete (tokenizer : Tokenizer) : Prop where
  symbols : ∀ byte, byte_to_symbol byte ∈ tokenizer.token_to_id
  merges : ∀ {left right rank}, rule_rank tokenizer.merge_rank left right = some rank →
    left ++ right ∈ tokenizer.token_to_id

/-- The IDs of a segment. -/
def segment_ids (encode_ordinary : Bytes → Except String (List UInt32)) (specials : Specials) :
    Segment → Except String (List UInt32)
  | .ordinary text => encode_ordinary text
  | .added token => .ok [(specials.lookup token).getD 0]

/-- What a segment should come back as. -/
def canonical (nfc : Bytes → Bytes) : Segment → Bytes
  | .ordinary text => nfc text
  | .added token => token

section Property

variable (buckets : UnorderedMap.BucketOrder Bytes) (unicode : Utf8proc) (nfc : Bytes → Bytes)
  (tokenizer : Tokenizer) (caches : Bytes → UnorderedMap Bytes (List Bytes))

/-- The IDs of a segment are decoded as what it should come back as. -/
def Returned (segment : Segment) : Prop :=
  ∃ ids, segment_ids (encode_ordinary buckets unicode tokenizer caches) tokenizer.special_to_id segment =
    .ok ids ∧ tokenizer.decode unicode ids = .ok (canonical nfc segment)

/-- The text is encoded, and its IDs are decoded as its ordinary segments in NFC and its added
tokens verbatim. -/
def Restored (text : Bytes) (segments : List Segment) : Prop :=
  ∃ ids, Encodes (encode_ordinary buckets unicode tokenizer caches) tokenizer.special_to_id true text
    (.ok ids) ∧ tokenizer.decode unicode ids = .ok (segments.flatMap (canonical nfc))

/-- The tokens that `bpe` makes of a normalized text. -/
def Emits (normalized symbol : Bytes) : Prop :=
  ∃ pieces piece symbols, pretokenize unicode normalized = .ok pieces ∧ piece ∈ pieces ∧
    bpe_symbols unicode tokenizer.merge_rank (byte_piece piece) = .ok symbols ∧ symbol ∈ symbols

/-- Where a token has a special ID, it is graphic. -/
def Plain (symbol : Bytes) : Prop :=
  ∀ id, tokenizer.token_to_id.lookup symbol = some id → id ∈ tokenizer.special_ids →
    ∀ byte ∈ symbol, graphic byte = true

/-- The segments whose IDs lead back: UTF-8 none of whose tokens is special, unless it is graphic;
and added tokens that are special or graphic. -/
def Decodable : Segment → Prop
  | .ordinary text => Utf8.Valid text ∧ ∀ symbol, Emits unicode tokenizer (nfc text) symbol →
      Plain tokenizer symbol
  | .added token => (tokenizer.special_to_id.lookup token).getD 0 ∈ tokenizer.special_ids ∨
      ∀ byte ∈ token, graphic byte = true

end Property

/-! ### Decoding one after the other -/

namespace Tokenizer

section Decode

variable {unicode : Utf8proc} {tokenizer : Tokenizer}

/-- A pass of `decode`. -/
def append_token (unicode : Utf8proc) (tokenizer : Tokenizer) (output : Bytes) (id : UInt32) :
    Except String Bytes := do
  .ok (output ++ (← tokenizer.decode_token unicode id))

/-- **The IDs of two texts** are decoded one after the other. -/
theorem decode_append (a b : List UInt32) : tokenizer.decode unicode (a ++ b) = (do
    let first ← tokenizer.decode unicode a
    let second ← tokenizer.decode unicode b
    .ok (first ++ second)) := by
  have hstart : ∀ start : Bytes, b.foldlM (append_token unicode tokenizer) start =
      (tokenizer.decode unicode b).map (start ++ ·) := by
    intro start
    have hstep : ∀ output id, append_token unicode tokenizer (start ++ output) id =
        (append_token unicode tokenizer output id).map (start ++ ·) := by
      intro output id
      rw [append_token, append_token]
      cases tokenizer.decode_token unicode id with
      | error message => rfl
      | ok token => exact congrArg Except.ok (List.append_assoc ..)
    have h := Except.foldlM_map_state (start ++ ·) hstep b []
    rw [List.append_nil] at h
    exact h
  have hrun : tokenizer.decode unicode (a ++ b) =
      tokenizer.decode unicode a >>= b.foldlM (append_token unicode tokenizer) := List.foldlM_append
  rw [hrun]
  cases tokenizer.decode unicode a with
  | error message => rfl
  | ok first =>
    rw [Except.ok_bind, Except.ok_bind, hstart]
    cases tokenizer.decode unicode b <;> rfl

theorem decode_singleton (id : UInt32) :
    tokenizer.decode unicode [id] = tokenizer.decode_token unicode id := by
  rw [decode, List.foldlM_cons]
  cases tokenizer.decode_token unicode id <;> rfl

end Decode

end Tokenizer

/-! ### What is decoded -/

section Ordinary

variable {buckets : UnorderedMap.BucketOrder Bytes} {unicode : Utf8proc} {nfc : Bytes → Bytes}
  {tokenizer : Tokenizer} {caches : Bytes → UnorderedMap Bytes (List Bytes)}
  {pairs : List (Bytes × UInt32)}

/-- IDs that are decoded as something that is no shorter than the text, and as the text where `P`
holds. -/
def Decodes (unicode : Utf8proc) (tokenizer : Tokenizer) (ids : List UInt32) (text : Bytes) (P : Prop) :
    Prop :=
  ∃ output, tokenizer.decode unicode ids = .ok output ∧ text.length ≤ output.length ∧
    (output = text ↔ P)

theorem Decodes.nil : Decodes unicode tokenizer [] [] True :=
  ⟨[], rfl, Nat.le_refl _, iff_of_true rfl trivial⟩

/-- Since no part is decoded as something shorter, none may be decoded as something longer. -/
theorem Decodes.append {a b : List UInt32} {s t : Bytes} {P Q : Prop}
    (ha : Decodes unicode tokenizer a s P) (hb : Decodes unicode tokenizer b t Q) :
    Decodes unicode tokenizer (a ++ b) (s ++ t) (P ∧ Q) := by
  obtain ⟨first, hfirst, hs, hP⟩ := ha
  obtain ⟨second, hsecond, ht, hQ⟩ := hb
  refine ⟨first ++ second, ?_, ?_, fun heq => ?_, ?_⟩
  · rw [Tokenizer.decode_append, hfirst, Except.ok_bind, hsecond, Except.ok_bind]
  · rw [List.length_append, List.length_append]
    exact Nat.add_le_add hs ht
  · have hlength := congrArg List.length heq
    rw [List.length_append, List.length_append] at hlength
    obtain ⟨hsame, hsame'⟩ := List.append_inj heq (by omega)
    exact ⟨hP.mp hsame, hQ.mp hsame'⟩
  · rintro ⟨hp, hq⟩
    rw [hP.mpr hp, hQ.mpr hq]

theorem Decodes.congr {ids : List UInt32} {text : Bytes} {P Q : Prop}
    (h : Decodes unicode tokenizer ids text P) (heq : P ↔ Q) : Decodes unicode tokenizer ids text Q := by
  rwa [← propext heq]

/-- A part of a piece that is a token in symbols. -/
def Known (tokenizer : Tokenizer) (part : Bytes) : Prop :=
  part ≠ [] ∧ byte_piece part ∈ tokenizer.token_to_id

theorem byte_piece_ne_nil {part : Bytes} (h : part ≠ []) : byte_piece part ≠ [] := by
  have hlength := (length_byte_piece part).1
  have hpos := List.length_pos_iff.mpr h
  exact List.length_pos_iff.mp (by omega)

/-- Read as it stands, a token in symbols is its text where it is graphic. -/
theorem byte_piece_eq_iff {part : Bytes} :
    byte_piece part = part ↔ ∀ byte ∈ byte_piece part, graphic byte = true := by
  constructor
  · intro heq
    rw [heq]
    exact (length_byte_piece part).2 (congrArg List.length heq).le
  · intro h
    refine byte_piece_eq_self fun byte hbyte => ?_
    by_contra hnot
    rw [Bool.not_eq_true] at hnot
    obtain ⟨first, hfirst, hhigh⟩ := exists_byte_to_symbol_of_not_graphic hnot
    have hgraphic := h first (List.mem_flatMap.mpr ⟨byte, hbyte, hfirst⟩)
    rw [hhigh] at hgraphic
    cases hgraphic

/-- **The way back of a token.** -/
theorem decodes_symbol (hdoc : unicode.Documented nfc) (htraced : tokenizer.Traced pairs) {part : Bytes}
    (h : Known tokenizer part) : ∃ id, symbol_id tokenizer (byte_piece part) = .ok id ∧
      Decodes unicode tokenizer [id] part (Plain tokenizer (byte_piece part)) := by
  obtain ⟨hne, hmem⟩ := h
  obtain ⟨id, hid⟩ := Option.isSome_iff_exists.mp (AList.lookup_isSome.mpr hmem)
  obtain ⟨-, hplace⟩ := htraced.token_to_id hid
  have htoken : tokenizer.decode unicode [id] =
      if id ∈ tokenizer.special_ids then .ok (byte_piece part) else .ok part := by
    rw [Tokenizer.decode_singleton, Tokenizer.decode_token, hplace]
    split
    · next hnone => cases hnone
    · next hnil => exact absurd (Option.some.inj hnil) (byte_piece_ne_nil hne)
    · next token hsome =>
      cases hsome
      rw [codepoints_byte_piece hdoc, Except.ok_bind, symbol_bytes_byte_piece]
  refine ⟨id, by rw [symbol_id, hid], ?_⟩
  by_cases hspecial : id ∈ tokenizer.special_ids
  · rw [if_pos hspecial] at htoken
    refine ⟨_, htoken, (length_byte_piece part).1, byte_piece_eq_iff.trans ⟨?_, ?_⟩⟩
    · intro hgraphic _ _ _
      exact hgraphic
    · intro hplain
      exact hplain id hid hspecial
  · rw [if_neg hspecial] at htoken
    refine ⟨part, htoken, Nat.le_refl _, iff_of_true rfl ?_⟩
    intro other hother hin
    rw [hid] at hother
    cases hother
    exact absurd hin hspecial

theorem decodes_symbols (hdoc : unicode.Documented nfc) (htraced : tokenizer.Traced pairs)
    {parts : List Bytes} (h : ∀ part ∈ parts, Known tokenizer part) :
    ∃ ids, (parts.map byte_piece).mapM (symbol_id tokenizer) = .ok ids ∧
      Decodes unicode tokenizer ids parts.flatten
        (∀ symbol ∈ parts.map byte_piece, Plain tokenizer symbol) := by
  induction parts with
  | nil => exact ⟨[], rfl, Decodes.nil.congr (iff_of_true trivial (List.forall_mem_nil _))⟩
  | cons part parts ih =>
    obtain ⟨hpart, hparts⟩ := List.forall_mem_cons.mp h
    obtain ⟨id, hid, hfirst⟩ := decodes_symbol hdoc htraced hpart
    obtain ⟨ids, hids, hrest⟩ := ih hparts
    refine ⟨id :: ids, ?_, (hfirst.append hrest).congr List.forall_mem_cons.symm⟩
    rw [List.map_cons, List.mapM_cons, hid, Except.ok_bind, hids, Except.ok_bind]
    rfl

/-! ### Pieces -/

theorem byte_piece_append (left right : Bytes) :
    byte_piece (left ++ right) = byte_piece left ++ byte_piece right := List.flatMap_append

theorem byte_piece_flatten (parts : List Bytes) :
    byte_piece parts.flatten = (parts.map byte_piece).flatten := by
  induction parts with
  | nil => rfl
  | cons part parts ih =>
    rw [List.flatten_cons, byte_piece_append, ih, List.map_cons, List.flatten_cons]

/-- The symbols of a piece. -/
theorem split_symbols_byte_piece (hdoc : unicode.Documented nfc) (piece : Bytes) :
    split_symbols unicode (byte_piece piece) = .ok (piece.map byte_to_symbol) := by
  rw [split_symbols, codepoints_byte_piece hdoc, Except.ok_bind, List.map_map]
  exact congrArg Except.ok (List.map_congr_left fun byte _ => (byte_to_symbol_eq byte).symm)

/-- **The tokens of a piece** are parts of it, each one known. -/
theorem bpe_symbols_byte_piece (hdoc : unicode.Documented nfc) (hcomplete : tokenizer.Complete)
    (piece : Bytes) : ∃ parts : List Bytes, parts.flatten = piece ∧ (∀ part ∈ parts, Known tokenizer part) ∧
      bpe_symbols unicode tokenizer.merge_rank (byte_piece piece) = .ok (parts.map byte_piece) := by
  have hsymbols : bpe_symbols unicode tokenizer.merge_rank (byte_piece piece) =
      .ok (merge_symbols tokenizer.merge_rank (piece.map byte_to_symbol)) := by
    rw [bpe_symbols, split_symbols_byte_piece hdoc, Except.ok_bind]
  have hknown : ∀ symbol ∈ merge_symbols tokenizer.merge_rank (piece.map byte_to_symbol),
      ∃ part, Known tokenizer part ∧ byte_piece part = symbol := by
    refine forall_merge_symbols ?_ ?_
    · rintro _ _ rank ⟨left, hleft, rfl⟩ ⟨right, hright, rfl⟩ hrank
      have hrule := rule_rank_of_lookup (zero_notMem_byte_piece left) (zero_notMem_byte_piece right) hrank
      refine ⟨left ++ right, ⟨List.append_ne_nil_of_left_ne_nil hleft.1 right, ?_⟩, byte_piece_append ..⟩
      rw [byte_piece_append]
      exact hcomplete.merges hrule
    · intro symbol hsymbol
      obtain ⟨byte, -, rfl⟩ := List.mem_map.mp hsymbol
      have hbyte : byte_piece [byte] = byte_to_symbol byte := List.flatMap_singleton ..
      refine ⟨[byte], ⟨List.cons_ne_nil _ _, ?_⟩, hbyte⟩
      rw [hbyte]
      exact hcomplete.symbols byte
  obtain ⟨parts, hparts⟩ : merge_symbols tokenizer.merge_rank (piece.map byte_to_symbol) ∈
      Set.range (List.map byte_piece) := by
    rw [Set.range_list_map]
    intro symbol hsymbol
    obtain ⟨part, -, hpart⟩ := hknown symbol hsymbol
    exact ⟨part, hpart⟩
  refine ⟨parts, byte_piece_inj hdoc ?_, fun part hpart => ?_, hparts ▸ hsymbols⟩
  · rw [byte_piece_flatten, hparts, merge_symbols_flatten, byte_piece, List.flatMap_def]
  · obtain ⟨same, hsame, heq⟩ := hknown _ (hparts ▸ List.mem_map_of_mem hpart)
    rw [← byte_piece_inj hdoc heq]
    exact hsame

/-- The caches that calls of `bpe` may find. -/
def Shared (buckets : UnorderedMap.BucketOrder Bytes) (unicode : Utf8proc)
    (ranks : UnorderedMap Bytes UInt32) (caches : Bytes → UnorderedMap Bytes (List Bytes)) : Prop :=
  ∀ piece, ∃ run, BpeRun.Reachable buckets unicode ranks run ∧ run.cache = caches piece

/-- The tokens of a piece are plain. -/
def PlainPiece (unicode : Utf8proc) (tokenizer : Tokenizer) (piece : Bytes) : Prop :=
  ∀ symbols symbol, bpe_symbols unicode tokenizer.merge_rank (byte_piece piece) = .ok symbols →
    symbol ∈ symbols → Plain tokenizer symbol

theorem decodes_piece (hdoc : unicode.Documented nfc) (htraced : tokenizer.Traced pairs)
    (hcomplete : tokenizer.Complete) (hshared : Shared buckets unicode tokenizer.merge_rank caches)
    (piece : Bytes) : ∃ ids, encode_piece buckets unicode tokenizer caches piece = .ok ids ∧
      Decodes unicode tokenizer ids piece (PlainPiece unicode tokenizer piece) := by
  obtain ⟨run, hrun, hcache⟩ := hshared piece
  obtain ⟨parts, hflatten, hknown, hsymbols⟩ := bpe_symbols_byte_piece hdoc hcomplete piece
  obtain ⟨ids, hids, hdecodes⟩ := decodes_symbols hdoc htraced hknown
  rw [hflatten] at hdecodes
  refine ⟨ids, ?_, hdecodes.congr ⟨fun h symbols symbol heq hsymbol => ?_, fun h symbol => ?_⟩⟩
  · rw [encode_piece, ← hcache, hrun.bpe_eq, hsymbols, Except.ok_bind, hids]
  · rw [hsymbols] at heq
    cases heq
    exact h symbol hsymbol
  · exact h _ symbol hsymbols

theorem decodes_pieces (hdoc : unicode.Documented nfc) (htraced : tokenizer.Traced pairs)
    (hcomplete : tokenizer.Complete) (hshared : Shared buckets unicode tokenizer.merge_rank caches)
    (pieces : List Bytes) : ∃ ids, pieces.mapM (encode_piece buckets unicode tokenizer caches) = .ok ids ∧
      Decodes unicode tokenizer ids.flatten pieces.flatten
        (∀ piece ∈ pieces, PlainPiece unicode tokenizer piece) := by
  induction pieces with
  | nil => exact ⟨[], rfl, Decodes.nil.congr (iff_of_true trivial (List.forall_mem_nil _))⟩
  | cons piece pieces ih =>
    obtain ⟨first, hfirst, hdecodes⟩ := decodes_piece hdoc htraced hcomplete hshared piece
    obtain ⟨rest, hrest, hdecodes'⟩ := ih
    refine ⟨first :: rest, ?_, (hdecodes.append hdecodes').congr List.forall_mem_cons.symm⟩
    rw [List.mapM_cons, hfirst, Except.ok_bind, hrest, Except.ok_bind]
    rfl

/-! ### Segments -/

/-- What is not UTF-8 is not encoded. -/
theorem encode_ordinary_error (hdoc : unicode.Documented nfc) {text : Bytes} (h : ¬Utf8.Valid text) :
    ∃ message, encode_ordinary buckets unicode tokenizer caches text = .error message := by
  obtain ⟨message, hmessage⟩ := hdoc.compose_error text h
  rw [encode_ordinary, normalize_nfc, hmessage]
  exact ⟨_, rfl⟩

/-- **The way back of an ordinary text.** -/
theorem decodes_ordinary (hdoc : unicode.Documented nfc) (htraced : tokenizer.Traced pairs)
    (hcomplete : tokenizer.Complete) (hshared : Shared buckets unicode tokenizer.merge_rank caches)
    {text : Bytes} (hvalid : Utf8.Valid text) :
    ∃ ids, encode_ordinary buckets unicode tokenizer caches text = .ok ids ∧
      Decodes unicode tokenizer ids (nfc text) (Decodable unicode nfc tokenizer (.ordinary text)) := by
  obtain ⟨m, hm⟩ := Utf8.valid_iff_exists.mp (hdoc.nfc_valid text hvalid)
  obtain ⟨pieces, hpieces, -, hflatten, -⟩ :=
    pretokenize_eq (hm ▸ codepoints_flatMap hdoc m : codepoints unicode (nfc text) = _)
  obtain ⟨ids, hids, hdecodes⟩ := decodes_pieces hdoc htraced hcomplete hshared pieces
  rw [hflatten] at hdecodes
  refine ⟨ids.flatten, ?_, hdecodes.congr ⟨fun h => ⟨hvalid, ?_⟩, fun h piece hpiece symbols symbol => ?_⟩⟩
  · rw [encode_ordinary, normalize_nfc, hdoc.compose text hvalid]
    change (do
      let pieces ← pretokenize unicode (nfc text)
      let ids ← pieces.mapM (encode_piece buckets unicode tokenizer caches)
      Except.ok ids.flatten) = _
    rw [hpieces, Except.ok_bind, hids, Except.ok_bind]
  · rintro symbol ⟨pieces', piece, symbols, hpieces', hpiece, hsymbols, hsymbol⟩
    rw [hpieces] at hpieces'
    cases hpieces'
    exact h piece hpiece symbols symbol hsymbols hsymbol
  · intro hsymbols hsymbol
    exact h.2 symbol ⟨pieces, piece, symbols, hpieces, hpiece, hsymbols, hsymbol⟩

/-- **When an ordinary text comes back**: it is UTF-8, and none of its tokens is read as it stands,
unless that is its text. -/
theorem returned_ordinary_iff (hdoc : unicode.Documented nfc) (htraced : tokenizer.Traced pairs)
    (hcomplete : tokenizer.Complete) (hshared : Shared buckets unicode tokenizer.merge_rank caches)
    (text : Bytes) : Returned buckets unicode nfc tokenizer caches (.ordinary text) ↔
      Decodable unicode nfc tokenizer (.ordinary text) := by
  rw [Returned]
  simp only [segment_ids, canonical]
  by_cases hvalid : Utf8.Valid text
  · obtain ⟨ids, hids, output, houtput, -, hiff⟩ :=
      decodes_ordinary hdoc htraced hcomplete hshared hvalid
    rw [← hiff]
    constructor
    · rintro ⟨ids', hids', hdecode⟩
      rw [hids] at hids'
      cases hids'
      rw [houtput] at hdecode
      exact Except.ok.inj hdecode
    · rintro rfl
      exact ⟨ids, hids, houtput⟩
  · refine iff_of_false ?_ fun h => hvalid h.1
    rintro ⟨ids, hids, -⟩
    obtain ⟨message, hmessage⟩ := @encode_ordinary_error buckets unicode nfc tokenizer caches hdoc _ hvalid
    rw [hmessage] at hids
    cases hids

/-- A token that is read as symbols is written in them. -/
theorem byte_piece_of_symbol_bytes (hdoc : unicode.Documented nfc) {token output : Bytes}
    {cps : List Codepoint} (hcps : codepoints unicode token = .ok cps)
    (h : Tokenizer.symbol_bytes cps = .ok output) : byte_piece output = token := by
  obtain ⟨m, rfl, rfl⟩ := exists_of_codepoints hdoc hcps
  clear hcps
  induction m generalizing output with
  | nil =>
    cases h
    rfl
  | cons c m ih =>
    rw [Tokenizer.symbol_bytes, List.map_cons, List.mapM_cons] at h
    obtain ⟨byte, hbyte, h⟩ := Except.bind_eq_ok.mp h
    obtain ⟨rest, hrest, h⟩ := Except.bind_eq_ok.mp h
    cases h
    have hsymbol : symbol byte = c.toNat := by
      refine symbol_of_symbol_to_byte ?_
      dsimp only [Utf8proc.codepoint] at hbyte
      split at hbyte
      · next found hfound =>
        cases hbyte
        exact hfound
      · cases hbyte
    rw [List.flatMap_cons, ← ih hrest, byte_piece, List.flatMap_cons, byte_to_symbol, utf8, hsymbol,
      Json.utf8_of_codepoint_toNat]
    rfl

/-- **When an added token comes back**: its ID is special, or it is graphic. -/
theorem returned_added_iff (hdoc : unicode.Documented nfc) (htraced : tokenizer.Traced pairs)
    {token : Bytes} (hmem : token ∈ tokenizer.special_to_id) (hne : token ≠ []) :
    Returned buckets unicode nfc tokenizer caches (.added token) ↔
      Decodable unicode nfc tokenizer (.added token) := by
  obtain ⟨id, hid⟩ := Option.isSome_iff_exists.mp (AList.lookup_isSome.mpr hmem)
  obtain ⟨-, hplace⟩ := htraced.special_to_id hid
  have htoken : tokenizer.decode unicode [id] =
      if id ∈ tokenizer.special_ids then .ok token
      else codepoints unicode token >>= Tokenizer.symbol_bytes := by
    rw [Tokenizer.decode_singleton, Tokenizer.decode_token, hplace]
    split
    · next hnone => cases hnone
    · next hnil => exact absurd (Option.some.inj hnil) hne
    · next found hsome =>
      cases hsome
      rfl
  rw [Returned, Decodable]
  simp only [segment_ids, canonical]
  rw [hid, Option.getD_some]
  by_cases hspecial : id ∈ tokenizer.special_ids
  · rw [if_pos hspecial] at htoken
    exact iff_of_true ⟨[id], rfl, htoken⟩ (Or.inl hspecial)
  · rw [if_neg hspecial] at htoken
    constructor
    · rintro ⟨ids, hids, hdecode⟩
      cases hids
      rw [htoken] at hdecode
      obtain ⟨cps, hcps, hbytes⟩ := Except.bind_eq_ok.mp hdecode
      have hsame := byte_piece_of_symbol_bytes hdoc hcps hbytes
      exact Or.inr ((length_byte_piece token).2 (congrArg List.length hsame).le)
    · intro h
      have hgraphic := h.resolve_left hspecial
      refine ⟨[id], rfl, ?_⟩
      rw [htoken]
      nth_rewrite 1 [← byte_piece_eq_self hgraphic]
      rw [codepoints_byte_piece hdoc, Except.ok_bind, symbol_bytes_byte_piece]

end Ordinary

/-! ### The whole text -/

section Text

variable {specials : Specials} {text : Bytes} {segments : List Segment}

/-- A text that was split holds no empty token. -/
theorem mem_of_added_mem (h : Splits specials text segments) {token : Bytes}
    (hmem : Segment.added token ∈ segments) : token ∈ specials ∧ token ≠ [] := by
  induction h with
  | nil => exact absurd hmem List.not_mem_nil
  | ordinary => cases List.mem_singleton.mp hmem
  | @added rest front found behind segments hne htaken hbehind ih =>
    rcases List.mem_append.mp hmem with hfront | hmem
    · rw [AddedTokens.ordinary_before] at hfront
      split at hfront
      · exact absurd hfront List.not_mem_nil
      · cases List.mem_singleton.mp hfront
    · rcases List.mem_cons.mp hmem with heq | hmem
      · cases heq
        refine ⟨htaken.mem, ?_⟩
        rintro rfl
        -- then the token is taken again, of the same text
        obtain rfl : front = [] := by
          by_contra hfront
          exact htaken.first [] htaken.mem 0 (List.length_pos_iff.mpr hfront) List.nil_prefix
        have hsame : rest = behind := htaken.eq
        subst hsame
        have htwice := hbehind.unique (.added hne htaken hbehind)
        exact absurd (congrArg List.length htwice) (Nat.ne_of_lt (Nat.lt_succ_self _))
      · exact ih hmem

/-- **The loop emits the segments**, also where there is no added token. -/
theorem encodes_of_splits {encode_ordinary : Bytes → Except String (List UInt32)}
    (hnil : encode_ordinary [] = .ok []) (h : Splits specials text segments) :
    Encodes encode_ordinary specials true text (emit encode_ordinary specials segments []) := by
  rw [Encodes]
  split
  · next hcase =>
    have hkeys : specials.keys = [] := hcase.resolve_left (fun h => by cases h)
    have hnone : ∀ token, token ∉ specials := by
      intro token htoken
      rw [← AddedTokens.mem_keys, hkeys] at htoken
      exact absurd htoken List.not_mem_nil
    cases h with
    | nil => exact hnil.symm
    | ordinary =>
      rw [emit]
      cases encode_ordinary text <;> rfl
    | added hne htaken => exact absurd htaken.mem (hnone _)
  · exact h.returns encode_ordinary (List.Perm.refl _) []

end Text

section RoundTrip

variable {buckets : UnorderedMap.BucketOrder Bytes} {unicode : Utf8proc} {nfc : Bytes → Bytes}
  {tokenizer : Tokenizer} {caches : Bytes → UnorderedMap Bytes (List Bytes)}

variable (buckets tokenizer caches) in
theorem encode_ordinary_nil (hdoc : unicode.Documented nfc) :
    encode_ordinary buckets unicode tokenizer caches [] = .ok [] := by
  have hpieces : pretokenize unicode [] = .ok [] := by
    rw [pretokenize, codepoints, if_pos rfl, Except.ok_bind, pieces]
    rfl
  rw [encode_ordinary, normalize_nfc, hdoc.compose [] Utf8.valid_nil, hdoc.nfc_nil]
  change (do
    let pieces ← pretokenize unicode []
    let ids ← pieces.mapM (encode_piece buckets unicode tokenizer caches)
    Except.ok ids.flatten) = _
  rw [hpieces]
  rfl

/-- Segment by segment. -/
theorem emit_of_returned {segments : List Segment}
    (h : ∀ segment ∈ segments, Returned buckets unicode nfc tokenizer caches segment)
    (output : List UInt32) :
    ∃ ids, emit (encode_ordinary buckets unicode tokenizer caches) tokenizer.special_to_id segments
        output = .ok (output ++ ids) ∧
      tokenizer.decode unicode ids = .ok (segments.flatMap (canonical nfc)) := by
  induction segments generalizing output with
  | nil => exact ⟨[], by rw [emit, List.append_nil], rfl⟩
  | cons segment segments ih =>
    obtain ⟨⟨first, hfirst, hdecode⟩, hrest⟩ := List.forall_mem_cons.mp h
    obtain ⟨ids, hids, hdecode'⟩ := ih hrest (output ++ first)
    refine ⟨first ++ ids, ?_, ?_⟩
    · rw [← List.append_assoc, ← hids]
      cases segment with
      | ordinary text =>
        rw [segment_ids] at hfirst
        rw [emit, hfirst, Except.ok_bind]
      | added token =>
        cases hfirst
        rw [emit]
    · rw [Tokenizer.decode_append, hdecode, Except.ok_bind, hdecode', Except.ok_bind,
        List.flatMap_cons]

variable {pairs : List (Bytes × UInt32)}

/-- **Where the added tokens come back**, what is encoded is decoded as something no shorter than
the text, and as the text where every segment comes back. -/
theorem decodes_of_emit (hdoc : unicode.Documented nfc) (htraced : tokenizer.Traced pairs)
    (hcomplete : tokenizer.Complete) (hshared : Shared buckets unicode tokenizer.merge_rank caches)
    {segments : List Segment} (hadded : ∀ token, Segment.added token ∈ segments →
      Returned buckets unicode nfc tokenizer caches (.added token) ∧
        Decodable unicode nfc tokenizer (.added token)) {output ids : List UInt32}
    (h : emit (encode_ordinary buckets unicode tokenizer caches) tokenizer.special_to_id segments output =
      .ok ids) :
    ∃ rest, ids = output ++ rest ∧ Decodes unicode tokenizer rest (segments.flatMap (canonical nfc))
      (∀ segment ∈ segments, Decodable unicode nfc tokenizer segment) := by
  induction segments generalizing output with
  | nil =>
    cases h
    exact ⟨[], (List.append_nil _).symm, Decodes.nil.congr (iff_of_true trivial (List.forall_mem_nil _))⟩
  | cons segment segments ih =>
    have hrest := fun {output} => @ih
      (fun token hmem => hadded token (List.mem_cons_of_mem _ hmem)) output
    cases segment with
    | ordinary text =>
      obtain ⟨ordinary, hordinary, h⟩ := Except.bind_eq_ok.mp h
      have hvalid : Utf8.Valid text := by
        by_contra hnot
        obtain ⟨message, hmessage⟩ :=
          @encode_ordinary_error buckets unicode nfc tokenizer caches hdoc _ hnot
        rw [hmessage] at hordinary
        cases hordinary
      obtain ⟨ids', hids', hdecodes⟩ := decodes_ordinary hdoc htraced hcomplete hshared hvalid
      rw [hordinary] at hids'
      cases hids'
      obtain ⟨rest, rfl, hdecodes'⟩ := hrest h
      exact ⟨ordinary ++ rest, List.append_assoc .., (hdecodes.append hdecodes').congr
        List.forall_mem_cons.symm⟩
    | added token =>
      obtain ⟨⟨ids', hids', hdecode⟩, hdecodable⟩ := hadded token List.mem_cons_self
      cases hids'
      obtain ⟨rest, rfl, hdecodes'⟩ := hrest h
      have hdecodes : Decodes unicode tokenizer [(tokenizer.special_to_id.lookup token).getD 0] token
          (Decodable unicode nfc tokenizer (.added token)) :=
        ⟨token, hdecode, le_rfl, iff_of_true rfl hdecodable⟩
      exact ⟨_, List.append_assoc .., (hdecodes.append hdecodes').congr List.forall_mem_cons.symm⟩

/-- The loop returns one thing. -/
theorem encodes_unique {encode_ordinary : Bytes → Except String (List UInt32)} {specials : Specials}
    {recognize_special_tokens : Bool} {text : Bytes} {r r' : Except String (List UInt32)}
    (h : Encodes encode_ordinary specials recognize_special_tokens text r)
    (h' : Encodes encode_ordinary specials recognize_special_tokens text r') : r = r' := by
  rw [Encodes] at h h'
  split at h
  · next hnone =>
    rw [if_pos hnone] at h'
    exact h.trans h'.symm
  · next hsome =>
    rw [if_neg hsome] at h'
    obtain ⟨s, hs, rfl⟩ := h
    obtain ⟨s', hs', rfl⟩ := h'
    rw [hs.unique hs']

/-- **When a text is encoded and decoded to itself**, for a text that is split at the added tokens.
A segment comes back exactly if it is an added token that is special or graphic, or UTF-8 none of
whose tokens is special, unless it is graphic. The text comes back if all its segments do; and only
if, where its added tokens are special or graphic. -/
theorem round_trips_iff {numbers : NumberText} {files : TokenizerFiles}
    (hdoc : unicode.Documented nfc)
    (hload : Tokenizer.load buckets numbers files = .ok tokenizer)
    (hids : Injective (files.ids numbers)) (hcomplete : tokenizer.Complete)
    (hshared : Shared buckets unicode tokenizer.merge_rank caches) {text : Bytes}
    {segments : List Segment} (hsplits : Splits tokenizer.special_to_id text segments) :
    (∀ segment ∈ segments, Returned buckets unicode nfc tokenizer caches segment ↔
      Decodable unicode nfc tokenizer segment) ∧
    ((∀ segment ∈ segments, Decodable unicode nfc tokenizer segment) →
      Restored buckets unicode nfc tokenizer caches text segments) ∧
    ((∀ token, Segment.added token ∈ segments → Decodable unicode nfc tokenizer (.added token)) →
      Restored buckets unicode nfc tokenizer caches text segments →
        ∀ segment ∈ segments, Decodable unicode nfc tokenizer segment) := by
  have htraced := Tokenizer.traced_of_load hids hload
  have hsegment : ∀ segment ∈ segments, Returned buckets unicode nfc tokenizer caches segment ↔
      Decodable unicode nfc tokenizer segment := by
    intro segment hmem
    cases segment with
    | ordinary o => exact returned_ordinary_iff hdoc htraced hcomplete hshared o
    | added token =>
      obtain ⟨htoken, hne⟩ := mem_of_added_mem hsplits hmem
      exact returned_added_iff hdoc htraced htoken hne
  have hencodes := encodes_of_splits (encode_ordinary_nil buckets tokenizer caches hdoc) hsplits
  refine ⟨hsegment, fun hdecodable => ?_, fun hadded => ?_⟩
  · obtain ⟨ids, hemit, hdecode⟩ := emit_of_returned
      (fun segment hmem => (hsegment segment hmem).mpr (hdecodable segment hmem)) []
    rw [hemit] at hencodes
    exact ⟨ids, hencodes, hdecode⟩
  · rintro ⟨ids, hreturns, hdecode⟩
    obtain ⟨rest, rfl, output, houtput, -, hiff⟩ := decodes_of_emit hdoc htraced hcomplete hshared
      (fun token hmem => ⟨(hsegment _ hmem).mpr (hadded token hmem), hadded token hmem⟩)
      (encodes_unique hencodes hreturns)
    rw [houtput] at hdecode
    exact hiff.mp (Except.ok.inj hdecode)

/-- **Graphic text** comes back. -/
theorem decodable_of_graphic (hdoc : unicode.Documented nfc) (hcomplete : tokenizer.Complete)
    {text : Bytes} (hvalid : Utf8.Valid text) (h : ∀ byte ∈ nfc text, graphic byte = true) :
    Decodable unicode nfc tokenizer (.ordinary text) := by
  refine ⟨hvalid, ?_⟩
  rintro symbol ⟨pieces, piece, symbols, hpieces, hpiece, hsymbols, hsymbol⟩ id - -
  obtain ⟨m, hm⟩ := Utf8.valid_iff_exists.mp (hdoc.nfc_valid text hvalid)
  obtain ⟨pieces', hpieces', -, hflatten, -⟩ :=
    pretokenize_eq (hm ▸ codepoints_flatMap hdoc m : codepoints unicode (nfc text) = _)
  rw [hpieces] at hpieces'
  cases hpieces'
  obtain ⟨parts, rfl, -, hparts⟩ := bpe_symbols_byte_piece hdoc hcomplete piece
  rw [hparts] at hsymbols
  cases hsymbols
  obtain ⟨part, hpart, rfl⟩ := List.mem_map.mp hsymbol
  have hgraphic : ∀ byte ∈ part, graphic byte = true := by
    intro byte hbyte
    refine h byte ?_
    rw [← hflatten]
    exact List.mem_flatten_of_mem hpiece (List.mem_flatten_of_mem hpart hbyte)
  rw [byte_piece_eq_self hgraphic]
  exact hgraphic

end RoundTrip

/-! ### A tokenizer of bytes -/

section Bytes

variable {buckets : UnorderedMap.BucketOrder Bytes} {token_to_id : UnorderedMap Bytes UInt32}
  {content : Bytes} {special : Bool}

theorem complete_byte_tokenizer (h : ∀ byte, byte_to_symbol byte ∈ token_to_id) :
    (byte_tokenizer buckets token_to_id content special).Complete where
  symbols byte := UnorderedMap.mem_put.mpr (Or.inr (h byte))
  merges hrank := by
    obtain ⟨rank, hlookup, -⟩ := lookup_of_rule_rank hrank
    rw [byte_tokenizer, AList.lookup_empty] at hlookup
    cases hlookup

/-- A text with the added token in it, once. -/
theorem splits_byte_tokenizer {before behind : Bytes} (hne : content ≠ [])
    (hbefore : ∀ j < before.length, ¬content <+: (before ++ (content ++ behind)).drop j)
    (hbehind : ¬content <:+: behind) (hsome : behind ≠ []) :
    Splits (byte_tokenizer buckets token_to_id content special).special_to_id
      (before ++ (content ++ behind))
      (AddedTokens.ordinary_before before ++ [.added content, .ordinary behind]) := by
  have hmem : ∀ token, token ∈ (byte_tokenizer buckets token_to_id content special).special_to_id ↔
      token = content := by
    intro token
    rw [byte_tokenizer, UnorderedMap.mem_emplace]
    exact or_iff_left (AList.notMem_empty token)
  have htaken : Taken (byte_tokenizer buckets token_to_id content special).special_to_id
      (before ++ (content ++ behind)) before content behind := by
    refine ⟨rfl, (hmem content).mpr rfl, fun other hother j hj => ?_, fun other hother _ => ?_⟩
    · rw [(hmem other).mp hother]
      exact hbefore j hj
    · exact (congrArg List.length ((hmem other).mp hother)).le
  refine .added ?_ htaken (.ordinary hsome fun other hother => ?_)
  · exact List.append_ne_nil_of_right_ne_nil _ (List.append_ne_nil_of_left_ne_nil hne _)
  · rw [(hmem other).mp hother]
    exact hbehind

variable (buckets token_to_id) in
theorem lookup_byte_tokenizer (content : Bytes) (special : Bool) :
    (byte_tokenizer buckets token_to_id content special).special_to_id.lookup content = some 256 :=
  UnorderedMap.lookup_emplace_of_notMem (AList.notMem_empty content)

end Bytes

/-- A special token with a space in it comes back, and the text around it. -/
theorem round_trips_special : ∃ tokenizer,
    Tokenizer.load (.newestFirst _) .integers (byte_files .integers [97, 32, 98] true) = .ok tokenizer ∧
      Splits tokenizer.special_to_id [99, 97, 97, 32, 98, 100]
        [.ordinary [99, 97], .added [97, 32, 98], .ordinary [100]] ∧
      Restored (.newestFirst _) .decoding id tokenizer (fun _ => ∅) [99, 97, 97, 32, 98, 100]
        [.ordinary [99, 97], .added [97, 32, 98], .ordinary [100]] := by
  obtain ⟨token_to_id, htokens, hload⟩ :=
    load_byte_files .integers (.newestFirst _) [97, 32, 98] true
  have hshared : Shared (.newestFirst _) .decoding
      (byte_tokenizer (.newestFirst _) token_to_id [97, 32, 98] true).merge_rank (fun _ => ∅) :=
    fun _ => ⟨⟨∅, [], []⟩, .refl, rfl⟩
  have hsplits := @splits_byte_tokenizer (.newestFirst _) token_to_id [97, 32, 98] true [99, 97] [100]
    (List.cons_ne_nil _ _) (by decide) (by decide) (List.cons_ne_nil _ _)
  have hcomplete := @complete_byte_tokenizer (.newestFirst _) token_to_id [97, 32, 98] true htokens
  refine ⟨_, hload, hsplits, (round_trips_iff documented_decoding hload
    (injective_ids_byte_files _ true) hcomplete hshared hsplits).2.1 ?_⟩
  refine List.forall_mem_cons.mpr ⟨?_, List.forall_mem_cons.mpr
    ⟨Or.inl ?_, List.forall_mem_singleton.mpr ?_⟩⟩
  · exact decodable_of_graphic documented_decoding hcomplete (by decide)
      (List.forall_mem_cons.mpr ⟨rfl, List.forall_mem_singleton.mpr rfl⟩)
  · rw [lookup_byte_tokenizer]
    exact List.mem_singleton_self _
  · exact decodable_of_graphic documented_decoding hcomplete (by decide)
      (List.forall_mem_singleton.mpr rfl)

end Token

end Qwen38
