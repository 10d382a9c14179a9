import Qwen38.Text.JsonText
import Qwen38.Token.ByteSymbols

/-!
# A tokenizer of bytes

Files whose vocabulary has one token for each byte and no rule, with one added token
(`Qwen38.Token.byte_files`). `load` accepts them, whatever the added token is
(`Qwen38.Token.load_byte_files`), and its IDs are distinct.

`Qwen38.Token.Utf8proc.decoding` reads UTF-8 as `utf8proc` is documented to; the texts that it
composes are taken to be in NFC.
-/

namespace Qwen38

namespace Token

open Json (Reads entry_text comma_separated quote_json_string integer_text)

/-! ### UTF-8 -/

theorem decodeChar_encodeChar_append (c : Char) (rest : Bytes) :
    (String.utf8EncodeChar c ++ rest).toByteArray.utf8DecodeChar? 0 = some c := by
  rw [List.toByteArray_append]
  exact ByteArray.utf8DecodeChar?_utf8EncodeChar_append

theorem encodeChar_prefix_of_decodeChar {input : Bytes} {c : Char}
    (h : input.toByteArray.utf8DecodeChar? 0 = some c) : String.utf8EncodeChar c <+: input := by
  obtain ⟨rest, hrest⟩ := ByteArray.exists_of_utf8DecodeChar?_eq_some h
  have hbytes := congrArg (fun b => b.data.toList) hrest
  exact ⟨rest.data.toList, by simpa using hbytes.symm⟩

/-- The first character, and its size. -/
def first_char (input : Bytes) : Option (Nat × Nat) :=
  (input.toByteArray.utf8DecodeChar? 0).map fun c => (c.toNat, (String.utf8EncodeChar c).length)

/-- UTF-8 by the standard library. -/
def Utf8proc.decoding : Utf8proc where
  iterate := first_char
  category := Utf8proc.ascii.category
  compose input := if Utf8.Valid input then .ok input else .error "Invalid UTF-8 string"
  size_pos {input value size} h := by
    obtain ⟨c, -, heq⟩ := Option.map_eq_some_iff.mp h
    cases heq
    exact List.length_pos_iff.mpr (utf8EncodeChar_ne_nil c)
  size_le {input value size} h := by
    obtain ⟨c, hc, heq⟩ := Option.map_eq_some_iff.mp h
    cases heq
    exact (encodeChar_prefix_of_decodeChar hc).length_le

theorem documented_decoding : Utf8proc.decoding.Documented id where
  iterate c rest := by
    change first_char _ = _
    rw [first_char, decodeChar_encodeChar_append, Option.map_some]
  iterate_none input h := by
    refine Option.map_eq_none_iff.mpr (Option.eq_none_iff_forall_ne_some.mpr fun c hc => ?_)
    exact h c (encodeChar_prefix_of_decodeChar hc)
  compose input h := if_pos h
  compose_error input h := ⟨_, if_neg h⟩
  nfc_valid input h := h
  nfc_nil := rfl

/-! ### The files -/

section Files

variable (numbers : NumberText)

/-- An object by the texts of its values. -/
def object_text (entries : List (Bytes × Bytes × Json numbers.Double)) : Bytes :=
  ascii ['\x7b'] ++ comma_separated (entries.map entry_text) ++ ascii ['\x7d']

/-- The object. -/
def object (entries : List (Bytes × Bytes × Json numbers.Double)) : Json numbers.Double :=
  .object (entries.map fun entry => (entry.1, entry.2.2))

/-- The tokens of the bytes. -/
def byte_entries : List (Bytes × Bytes × Json numbers.Double) :=
  (List.range 256).map fun id : Nat => (byte_to_symbol id.toUInt8, integer_text (id : Int), .integer id)

/-- The description of an added token. -/
def description (content : Bytes) (special : Bool) : List (Bytes × Bytes × Json numbers.Double) :=
  [(bytes "content", quote_json_string content, .string content),
    (bytes "special", if special then ascii ['t', 'r', 'u', 'e'] else ascii ['f', 'a', 'l', 's', 'e'],
      .boolean special)]

/-- The added tokens. -/
def added_tokens_decoder (content : Bytes) (special : Bool) :
    List (Bytes × Bytes × Json numbers.Double) :=
  [(bytes "256", object_text numbers (description numbers content special),
    object numbers (description numbers content special))]

/-- `tokenizer_config.json`. -/
def tokenizer_config (content : Bytes) (special : Bool) : List (Bytes × Bytes × Json numbers.Double) :=
  [(bytes "added_tokens_decoder", object_text numbers (added_tokens_decoder numbers content special),
    object numbers (added_tokens_decoder numbers content special))]

/-- The files. -/
def byte_files (content : Bytes) (special : Bool) : TokenizerFiles where
  vocab := some (object_text numbers (byte_entries numbers))
  merges := some []
  tokenizer := none
  tokenizer_config := some (object_text numbers (tokenizer_config numbers content special))

variable {numbers}

theorem reads_byte_entries : Reads numbers (object_text numbers (byte_entries numbers))
    (object numbers (byte_entries numbers)) := by
  refine Json.reads_object _ ?_ ?_
  · intro entry hentry
    obtain ⟨id, hid, rfl⟩ := List.mem_map.mp hentry
    have hlt := List.mem_range.mp hid
    exact Json.reads_integer (by omega) (by omega)
  · rw [byte_entries, List.map_map]
    refine List.Nodup.map_on ?_ List.nodup_range
    intro a ha b hb heq
    have ha := List.mem_range.mp ha
    have hb := List.mem_range.mp hb
    have hpieces : byte_piece [a.toUInt8] = byte_piece [b.toUInt8] := by
      rw [byte_piece, byte_piece, List.flatMap_singleton, List.flatMap_singleton]
      exact heq
    have hbytes := congrArg UInt8.toNat (List.singleton_inj.mp (byte_piece_inj documented_decoding hpieces))
    rwa [Nat.toUInt8_eq, Nat.toUInt8_eq, UInt8.toNat_ofNat_of_lt' ha, UInt8.toNat_ofNat_of_lt' hb] at hbytes

theorem reads_single {key text : Bytes} {value : Json numbers.Double} (h : Reads numbers text value) :
    Reads numbers (object_text numbers [(key, text, value)]) (object numbers [(key, text, value)]) :=
  Json.reads_object [(key, text, value)] (List.forall_mem_singleton.mpr h) (List.nodup_singleton key)

theorem reads_tokenizer_config (content : Bytes) (special : Bool) :
    Reads numbers (object_text numbers (tokenizer_config numbers content special))
      (object numbers (tokenizer_config numbers content special)) := by
  refine reads_single (reads_single (Json.reads_object _ ?_ ?_))
  · refine List.forall_mem_cons.mpr ⟨Json.reads_string content, List.forall_mem_singleton.mpr ?_⟩
    exact Json.reads_boolean special
  · have hne : bytes "content" ≠ bytes "special" := by decide
    exact List.nodup_cons.mpr ⟨mt List.mem_singleton.mp hne, List.nodup_singleton _⟩

/-! ### Loading -/

variable (numbers) in
theorem read_json_of_reads {text : Bytes} {value : Json numbers.Double} (h : Reads numbers text value)
    (path : String) : Tokenizer.read_json numbers (some text) path = .ok value := by
  rw [Tokenizer.read_json, Tokenizer.read_text, Except.ok_bind, Json.parse_of_reads h]
  rfl

/-- A loop over entries of the bytes, in any order, that puts each of them into the table. -/
theorem foldlM_byte_entries (buckets : UnorderedMap.BucketOrder Bytes)
    {f : UnorderedMap Bytes UInt32 → Bytes × Json numbers.Double →
      Except String (UnorderedMap Bytes UInt32)}
    (hf : ∀ start (id : Nat), id < 256 → f start (byte_to_symbol id.toUInt8, .integer id) =
      .ok (UnorderedMap.emplace buckets start (byte_to_symbol id.toUInt8) (.ofNat id)))
    {todo : List (Bytes × Json numbers.Double)}
    (htodo : ∀ entry ∈ todo, ∃ id : Nat, id < 256 ∧ entry = (byte_to_symbol id.toUInt8, .integer id))
    (start : UnorderedMap Bytes UInt32) :
    ∃ token_to_id, todo.foldlM f start = .ok token_to_id ∧
      (∀ token ∈ start, token ∈ token_to_id) ∧ ∀ entry ∈ todo, entry.1 ∈ token_to_id := by
  induction todo generalizing start with
  | nil => exact ⟨start, rfl, fun _ h => h, List.forall_mem_nil _⟩
  | cons entry todo ih =>
    obtain ⟨⟨id, hid, rfl⟩, hrest⟩ := List.forall_mem_cons.mp htodo
    obtain ⟨token_to_id, hrun, hstart, htokens⟩ :=
      ih hrest (UnorderedMap.emplace buckets start (byte_to_symbol id.toUInt8) (.ofNat id))
    refine ⟨token_to_id, ?_, fun token htoken => hstart token ?_,
      List.forall_mem_cons.mpr ⟨?_, htokens⟩⟩
    · rw [List.foldlM_cons, hf start id hid, Except.ok_bind]
      exact hrun
    · exact UnorderedMap.mem_emplace.mpr (Or.inr htoken)
    · exact hstart _ (UnorderedMap.mem_emplace.mpr (Or.inl rfl))

variable (numbers) in
/-- The vocabulary has a token for each byte. -/
theorem load_vocabulary_byte_entries (buckets : UnorderedMap.BucketOrder Bytes) :
    ∃ token_to_id, Tokenizer.load_vocabulary buckets (object numbers (byte_entries numbers)) =
      .ok token_to_id ∧ ∀ byte, byte_to_symbol byte ∈ token_to_id := by
  have hentries : (object numbers (byte_entries numbers)).get_object =
      .ok ((List.range 256).map fun id : Nat => (byte_to_symbol id.toUInt8, .integer id)) := by
    refine Json.get_object_eq_ok.mpr (congrArg Json.object ?_)
    rw [byte_entries, List.map_map]
    rfl
  have hperm := perm_iterate buckets
    ((List.range 256).map fun id : Nat => (byte_to_symbol id.toUInt8, (.integer id : Json numbers.Double)))
  rw [Tokenizer.load_vocabulary, hentries, Except.ok_bind]
  refine (foldlM_byte_entries buckets ?_ ?_ ∅).imp fun token_to_id h => ⟨h.1, fun byte => ?_⟩
  · intro start id hid
    dsimp only
    rw [Json.get_integer_eq_ok.mpr rfl, Except.ok_bind, Tokenizer.token_id, if_neg (by omega),
      Except.ok_bind, Int.toNat_natCast]
  · intro entry hentry
    obtain ⟨id, hid, rfl⟩ := List.mem_map.mp (hperm.mem_iff.mp hentry)
    exact ⟨id, List.mem_range.mp hid, rfl⟩
  · have hbyte := h.2.2 _ (hperm.mem_iff.mpr
      (List.mem_map_of_mem (List.mem_range.mpr byte.toNat_lt)))
    rwa [Nat.toUInt8_eq, UInt8.ofNat_toNat] at hbyte

theorem find_object_head (key text : Bytes) (value : Json numbers.Double)
    (entries : List (Bytes × Bytes × Json numbers.Double)) :
    (object numbers ((key, text, value) :: entries)).find key = some value :=
  List.lookup_cons_self

/-- The tokenizer of these files, with the vocabulary as it was loaded. -/
def byte_tokenizer (buckets : UnorderedMap.BucketOrder Bytes) (token_to_id : UnorderedMap Bytes UInt32)
    (content : Bytes) (special : Bool) : Tokenizer where
  token_to_id := UnorderedMap.put buckets token_to_id content 256
  id_to_token := Tokenizer.set_token (Tokenizer.tokens_by_id token_to_id) 256 content
  merge_rank := ∅
  special_to_id := UnorderedMap.emplace buckets ∅ content 256
  special_ids := if special then [256] else []

variable (numbers) in
/-- **The files are accepted.** They have the symbol of each byte and one added token, and the
tokenizer that is loaded from them has these and no merges, in whatever order the maps are gone
through. -/
theorem load_byte_files (buckets : UnorderedMap.BucketOrder Bytes) (content : Bytes) (special : Bool) :
    ∃ token_to_id, (∀ byte, byte_to_symbol byte ∈ token_to_id) ∧
      Tokenizer.load buckets numbers (byte_files numbers content special) =
        .ok (byte_tokenizer buckets token_to_id content special) := by
  obtain ⟨token_to_id, hvocabulary, htokens⟩ := load_vocabulary_byte_entries numbers buckets
  refine ⟨token_to_id, htokens, ?_⟩
  have hmerges : Tokenizer.load_merges buckets Tokenizer.merge_of_line (([] : Bytes).splitOn 10) = .ok ∅ :=
    rfl
  have hmodel : Tokenizer.load_model buckets numbers (byte_files numbers content special) =
      .ok (⟨token_to_id, Tokenizer.tokens_by_id token_to_id, ∅, ∅, []⟩, none) := by
    rw [Tokenizer.load_model, byte_files]
    dsimp only
    rw [read_json_of_reads numbers reads_byte_entries, Except.ok_bind, hvocabulary, Except.ok_bind, hmerges,
      Except.ok_bind]
  have hconfig := read_json_of_reads numbers (reads_tokenizer_config content special)
    "tokenizer_config.json"
  rw [Tokenizer.load, hmodel, Except.ok_bind]
  dsimp only
  rw [byte_files]
  dsimp only
  rw [hconfig, Except.ok_bind]
  have hid : Tokenizer.parse_id (bytes "256") = .ok 256 := by decide +kernel
  have hfind : (object numbers (tokenizer_config numbers content special)).find
      (bytes "added_tokens_decoder") =
        some (.object [(bytes "256", object numbers (description numbers content special))]) :=
    find_object_head ..
  have hcontent : (object numbers (description numbers content special)).at_key "content" =
      .ok (.string content) := Json.at_key_eq_ok.mpr (find_object_head ..)
  have hspecial : (object numbers (description numbers content special)).at_key "special" =
      .ok (.boolean special) := by
    have hne : (bytes "special" == bytes "content") = false := by decide
    refine Json.at_key_eq_ok.mpr ?_
    rw [description, object, Json.find, List.map_cons, List.lookup_cons, hne]
    exact List.lookup_cons_self
  rw [Tokenizer.load_added_tokens, hfind]
  dsimp only
  rw [List.perm_singleton.mp (perm_iterate buckets _), List.foldlM_cons, hid, Except.ok_bind, Tokenizer.add_token, hcontent, Except.ok_bind,
    Json.get_string_eq_ok.mpr rfl, Except.ok_bind, hspecial, Except.ok_bind]
  cases special <;> rfl

/-- The IDs: the bytes, and one more. -/
theorem ids_byte_files (content : Bytes) (special : Bool) :
    (byte_files numbers content special).ids numbers =
      ((List.range 256).map fun id : Nat => (byte_to_symbol id.toUInt8, UInt32.ofNat id)) ++
        [(content, 256)] := by
  have hvocab := Tokenizer.json_of_eq
    (read_json_of_reads numbers reads_byte_entries "vocab.json")
  have hconfig := Tokenizer.json_of_eq (read_json_of_reads numbers
    (reads_tokenizer_config content special) "tokenizer_config.json")
  have hbytes : vocabulary_ids (object numbers (byte_entries numbers)) =
      (List.range 256).map fun id : Nat => (byte_to_symbol id.toUInt8, UInt32.ofNat id) := by
    rw [object, byte_entries, vocabulary_ids, List.map_map, List.filterMap_map]
    exact congrFun List.filterMap_eq_map _
  have hadded : added_ids (object numbers (tokenizer_config numbers content special)) none =
      [(content, 256)] := by
    have hid : UInt32.ofNat (Json.digits_value (bytes "256")) = 256 := by decide +kernel
    have hentry : added_id (object numbers (description numbers content special)) 256 =
        some (content, 256) := by
      rw [added_id, description, find_object_head]
    rw [added_ids, tokenizer_config, find_object_head]
    change [(bytes "256", object numbers (description numbers content special))].filterMap (fun entry =>
      added_id entry.2 (.ofNat (Json.digits_value entry.1))) = _
    rw [List.filterMap_cons, hid, hentry, List.filterMap_nil]
  rw [TokenizerFiles.ids, byte_files]
  dsimp only
  rw [hvocab, hconfig, hbytes, hadded]

theorem injective_ids_byte_files (content : Bytes) (special : Bool) :
    Injective ((byte_files numbers content special).ids numbers) := by
  have hlt : ∀ pair ∈ (List.range 256).map (fun id : Nat => (byte_to_symbol id.toUInt8, UInt32.ofNat id)),
      pair.2.toNat < 256 ∧ pair.1 = byte_to_symbol pair.2.toNat.toUInt8 := by
    intro pair hpair
    obtain ⟨id, hid, rfl⟩ := List.mem_map.mp hpair
    have hid := List.mem_range.mp hid
    have hvalue : (UInt32.ofNat id).toNat = id := UInt32.toNat_ofNat_of_lt' (Nat.lt_trans hid (by decide))
    rw [hvalue]
    exact ⟨hid, rfl⟩
  rw [ids_byte_files]
  intro a ha b hb heq
  rcases List.mem_append.mp ha with ha | ha <;> rcases List.mem_append.mp hb with hb | hb
  · rw [(hlt a ha).2, (hlt b hb).2, heq]
  · have hsmall := (hlt a ha).1
    rw [heq, List.mem_singleton.mp hb] at hsmall
    exact absurd hsmall (Nat.lt_irrefl 256)
  · have hsmall := (hlt b hb).1
    rw [← heq, List.mem_singleton.mp ha] at hsmall
    exact absurd hsmall (Nat.lt_irrefl 256)
  · rw [List.mem_singleton.mp ha, List.mem_singleton.mp hb]

end Files

end Token

end Qwen38
