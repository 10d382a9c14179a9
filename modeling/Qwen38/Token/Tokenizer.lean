import Qwen38.Lib.Except
import Qwen38.Lib.UnorderedMap
import Qwen38.Text.ChatTemplate
import Qwen38.Text.Json

/-!
# The tokenizer's tables

`Tokenizer::load` from the contents of its files, and `decode`. The tables are unordered maps;
the ranks of the merge rules count the rules as they are read, and an added token keeps the ID
it got first.

`utf8proc` is not part of the repository: `Utf8proc` is what the tokenizer calls of it, with the
sizes that `utf8proc_iterate` may return.
-/

namespace Qwen38

/-- An object in the order of its buckets. -/
def iterate {D : Type} (buckets : UnorderedMap.BucketOrder Bytes) (entries : List (Bytes × Json D)) :
    List (Bytes × Json D) :=
  (buckets.order (entries.map fun entry => (⟨entry.1, entry.2⟩ : Sigma fun _ : Bytes => Json D))).map
    fun entry => (entry.1, entry.2)

theorem perm_iterate {D : Type} (buckets : UnorderedMap.BucketOrder Bytes)
    (entries : List (Bytes × Json D)) : (iterate buckets entries).Perm entries := by
  have hperm := (buckets.perm (entries.map fun entry =>
    (⟨entry.1, entry.2⟩ : Sigma fun _ : Bytes => Json D))).map fun entry => (entry.1, entry.2)
  rw [List.map_map] at hperm
  refine hperm.trans (List.Perm.of_eq ?_)
  exact List.map_id entries

namespace Json

variable {D : Type}

/-- `get_or_throw`. -/
def get_or_throw {α : Type} (value : Option α) (expected : String) : Except String α :=
  match value with
  | some value => .ok value
  | none => .error ("JSON value is not " ++ expected)

/-- `Json::at`. -/
def at_key (value : Json D) (key : String) : Except String (Json D) :=
  match value.find (bytes key) with
  | some value => .ok value
  | none => .error ("missing JSON key: " ++ key)

/-- `Json::as_string`, with what it throws. -/
def get_string (value : Json D) : Except String Bytes := get_or_throw value.as_string "a string"

/-- `Json::as_integer`. -/
def get_integer : Json D → Except String Int
  | .integer value => .ok value
  | _ => get_or_throw none "an integer"

/-- `Json::as_boolean`. -/
def get_boolean : Json D → Except String Bool
  | .boolean value => .ok value
  | _ => get_or_throw none "a boolean"

/-- `Json::as_array`. -/
def get_array : Json D → Except String (List (Json D))
  | .array items => .ok items
  | _ => get_or_throw none "an array"

/-- `Json::as_object`. -/
def get_object : Json D → Except String (List (Bytes × Json D))
  | .object entries => .ok entries
  | _ => get_or_throw none "an object"

/-! ### Accessors that return -/

variable {value : Json D}

theorem get_integer_eq_ok {integer : Int} :
    value.get_integer = .ok integer ↔ value = .integer integer := by
  cases value <;> simp [get_integer, get_or_throw]

theorem get_string_eq_ok {text : Bytes} : value.get_string = .ok text ↔ value = .string text := by
  cases value <;> simp [get_string, as_string, get_or_throw]

theorem get_array_eq_ok {items : List (Json D)} :
    value.get_array = .ok items ↔ value = .array items := by
  cases value <;> simp [get_array, get_or_throw]

theorem get_object_eq_ok {entries : List (Bytes × Json D)} :
    value.get_object = .ok entries ↔ value = .object entries := by
  cases value <;> simp [get_object, get_or_throw]

theorem at_key_eq_ok {key : String} {field : Json D} :
    value.at_key key = .ok field ↔ value.find (bytes key) = some field := by
  rw [at_key]
  cases value.find (bytes key) <;> simp

end Json

namespace Token

/-! ### Code points -/

/-- `utf8proc_category_t`. -/
inductive Category
  | cn | lu | ll | lt | lm | lo | mn | mc | me | nd | nl | no | pc | pd | ps | pe | pi | pf | po
  | sm | sc | sk | so | zs | zl | zp | cc | cf | cs | co
deriving DecidableEq

/-- The functions of `utf8proc`. -/
structure Utf8proc where
  /-- `utf8proc_iterate`: the first code point and its size, `none` for an error. -/
  iterate : Bytes → Option (Nat × Nat)
  /-- `utf8proc_category`. -/
  category : Nat → Category
  /-- `utf8proc_map` with `UTF8PROC_STABLE | UTF8PROC_COMPOSE`; an error has a message. -/
  compose : Bytes → Except String Bytes
  size_pos : ∀ {input value size}, iterate input = some (value, size) → 0 < size
  size_le : ∀ {input value size}, iterate input = some (value, size) → size ≤ input.length

/-- `Codepoint`, with its bytes in place of their positions. -/
structure Codepoint where
  value : Nat
  text : Bytes
  category : Category
deriving DecidableEq

/-- `utf8`, of a code point that can be encoded. -/
def utf8 (value : Nat) : Bytes := Json.utf8_of_codepoint value

section Unicode

variable (unicode : Utf8proc)

/-- `normalize_nfc`. -/
def normalize_nfc (input : Bytes) : Except String Bytes :=
  (unicode.compose input).mapError fun message => "Unicode normalization failed: " ++ message

/-- `codepoints`. -/
def codepoints (input : Bytes) : Except String (List Codepoint) :=
  if input = [] then .ok []
  else
    match _ : unicode.iterate input with
    | none => .error "input contains invalid UTF-8"
    | some (value, size) => do
      let rest ← codepoints (input.drop size)
      .ok (⟨value, input.take size, unicode.category value⟩ :: rest)
termination_by input.length
decreasing_by
  have hpos := unicode.size_pos ‹_›
  have hle := unicode.size_le ‹_›
  rw [List.length_drop]
  omega

variable {unicode} {input : Bytes} {cps : List Codepoint}

/-- The code points of a text are its bytes, cut in pieces. -/
theorem codepoints_flatten (h : codepoints unicode input = .ok cps) :
    (cps.map Codepoint.text).flatten = input := by
  fun_induction codepoints unicode input generalizing cps with
  | case1 =>
    cases h
    rfl
  | case2 => cases h
  | case3 input hne value size hiterate ih =>
    obtain ⟨rest, hrest, h⟩ := Except.bind_eq_ok.mp h
    cases h
    rw [List.map_cons, List.flatten_cons, ih hrest, List.take_append_drop]

theorem text_ne_nil (h : codepoints unicode input = .ok cps) : ∀ cp ∈ cps, cp.text ≠ [] := by
  fun_induction codepoints unicode input generalizing cps with
  | case1 =>
    cases h
    exact List.forall_mem_nil _
  | case2 => cases h
  | case3 input hne value size hiterate ih =>
    obtain ⟨rest, hrest, h⟩ := Except.bind_eq_ok.mp h
    cases h
    refine List.forall_mem_cons.mpr ⟨fun htake => ?_, ih hrest⟩
    exact hne ((List.take_eq_nil_iff.mp htake).resolve_left (unicode.size_pos hiterate).ne')

end Unicode

/-! ### The alphabet of bytes -/

/-- The bytes that stand for themselves. -/
def direct (value : Nat) : Bool :=
  (33 ≤ value && value ≤ 126) || (161 ≤ value && value ≤ 172) || (174 ≤ value && value ≤ 255)

/-- The code point of a byte: itself, or the next one from 256 on. -/
def symbol (byte : UInt8) : Nat :=
  if direct byte.toNat then byte.toNat
  else 256 + (List.range byte.toNat).countP fun value => !direct value

/-- `byte_to_symbol_`. -/
def byte_to_symbol (byte : UInt8) : Bytes := utf8 (symbol byte)

/-- `symbol_to_byte_`. -/
def symbol_to_byte (value : Nat) : Option UInt8 :=
  ((List.range 256).map Nat.toUInt8).find? fun byte => symbol byte = value

/-! ### Loading -/

/-- `Tokenizer`. -/
structure Tokenizer where
  token_to_id : UnorderedMap Bytes UInt32
  id_to_token : List Bytes
  merge_rank : UnorderedMap Bytes UInt32
  special_to_id : UnorderedMap Bytes UInt32
  special_ids : List UInt32

/-- The contents of the files, where they can be opened. -/
structure TokenizerFiles where
  vocab : Option Bytes
  merges : Option Bytes
  tokenizer : Option Bytes
  tokenizer_config : Option Bytes

/-- `pair_key`. -/
def pair_key (left right : Bytes) : Bytes := left ++ 0 :: right

namespace Tokenizer

section Load

variable (buckets : UnorderedMap.BucketOrder Bytes)

/-- `read_text`. -/
def read_text (file : Option Bytes) (path : String) : Except String Bytes :=
  match file with
  | some text => .ok text
  | none => .error ("cannot open " ++ path)

/-- A file as JSON. -/
def read_json (numbers : NumberText) (file : Option Bytes) (path : String) :
    Except String (Json numbers.Double) := do
  let text ← read_text file path
  (Json.parse numbers text).mapError fun failure => failure.what text.length

/-- An integer as an ID. -/
def token_id (id : Int) (message : String) : Except String UInt32 :=
  if id < 0 ∨ 2 ^ 32 - 1 < id then .error message else .ok (.ofNat id.toNat)

/-- An ID written in digits. -/
def parse_id (text : Bytes) : Except String UInt32 :=
  if text ≠ [] ∧ text.all Json.is_digit ∧ Json.digits_value text < 2 ^ 32 then
    .ok (.ofNat (Json.digits_value text))
  else .error "invalid added token ID"

/-- The vocabulary. -/
def load_vocabulary {D : Type} (vocabulary : Json D) : Except String (UnorderedMap Bytes UInt32) := do
  let entries ← vocabulary.get_object
  (iterate buckets entries).foldlM (fun token_to_id (token, value) => do
    let id ← value.get_integer
    let id ← token_id id "invalid tokenizer vocabulary ID"
    .ok (UnorderedMap.emplace buckets token_to_id token id)) ∅

/-- `id_to_token_[id] = token`, after a `resize` when there is no such position. -/
def set_token (id_to_token : List Bytes) (id : UInt32) (token : Bytes) : List Bytes :=
  (id_to_token ++ List.replicate (id.toNat + 1 - id_to_token.length) []).set id.toNat token

/-- The tokens by their IDs. -/
def tokens_by_id (token_to_id : UnorderedMap Bytes UInt32) : List Bytes :=
  token_to_id.entries.foldl (fun id_to_token entry => set_token id_to_token entry.2 entry.1) [[]]

/-- The next merge rule: its rank is the number of rules before it. -/
def add_merge (ranks : UnorderedMap Bytes UInt32 × UInt32) (left right : Bytes) :
    UnorderedMap Bytes UInt32 × UInt32 :=
  (UnorderedMap.emplace buckets ranks.1 (pair_key left right) ranks.2, ranks.2 + 1)

/-- A line of `merges.txt`. -/
def merge_of_line (line : Bytes) : Except String (Option (Bytes × Bytes)) :=
  if line = [] ∨ bytes "#version" <+: line then .ok none
  else
    match Search.find (ascii [' ']) line with
    | none => .error "invalid tokenizer merge rule"
    | some separator =>
      if separator = 0 ∨ line.length ≤ separator + 1 then .error "invalid tokenizer merge rule"
      else .ok (some (line.take separator, line.drop (separator + 1)))

/-- A rule of `tokenizer.json`. -/
def merge_of_json {D : Type} (merge : Json D) : Except String (Option (Bytes × Bytes)) := do
  let pair ← merge.get_array
  match pair with
  | [left, right] => do
    let left ← left.get_string
    Except.throw_if (left = []) "invalid tokenizer.json merge rule"
    let right ← right.get_string
    Except.throw_if (right = []) "invalid tokenizer.json merge rule"
    .ok (some (left, right))
  | _ => .error "invalid tokenizer.json merge rule"

/-- The merge rules, one after the other. -/
def load_merges {α : Type} (rule : α → Except String (Option (Bytes × Bytes))) (rules : List α) :
    Except String (UnorderedMap Bytes UInt32) := do
  let ranks ← rules.foldlM (fun ranks item => do
    match ← rule item with
    | none => .ok ranks
    | some (left, right) => .ok (add_merge buckets ranks left right)) (∅, 0)
  .ok ranks.1

/-- `add_token`. -/
def add_token {D : Type} (tokenizer : Tokenizer) (id : UInt32) (description : Json D) :
    Except String Tokenizer := do
  let token ← (← description.at_key "content").get_string
  let special ← (← description.at_key "special").get_boolean
  .ok { tokenizer with
    id_to_token := set_token tokenizer.id_to_token id token
    token_to_id := UnorderedMap.put buckets tokenizer.token_to_id token id
    special_to_id := UnorderedMap.emplace buckets tokenizer.special_to_id token id
    special_ids := if special then tokenizer.special_ids.insert id else tokenizer.special_ids }

/-- The added tokens, by `added_tokens_decoder` or else by `tokenizer.json`. -/
def load_added_tokens {D : Type} (tokenizer : Tokenizer) (tokenizer_config : Json D)
    (tokenizer_json : Option (Json D)) : Except String Tokenizer :=
  match tokenizer_config.find (bytes "added_tokens_decoder") with
  | some (.object entries) =>
    (iterate buckets entries).foldlM (fun tokenizer (id_text, description) => do
      let id ← parse_id id_text
      add_token buckets tokenizer id description) tokenizer
  | _ =>
    match tokenizer_json with
    | some tokenizer_json => do
      let descriptions ← (← tokenizer_json.at_key "added_tokens").get_array
      descriptions.foldlM (fun tokenizer description => do
        let raw_id ← (← description.at_key "id").get_integer
        let id ← token_id raw_id "invalid tokenizer.json added token ID"
        add_token buckets tokenizer id description) tokenizer
    | none => .error "tokenizer config is missing added token metadata"

/-- The tables of `vocab.json` and `merges.txt`, or of the model in `tokenizer.json`, which is
kept then. -/
def load_model (numbers : NumberText) (files : TokenizerFiles) :
    Except String (Tokenizer × Option (Json numbers.Double)) := do
  match files.vocab, files.merges with
  | some vocab, some merges => do
    let vocabulary ← read_json numbers (some vocab) "vocab.json"
    let token_to_id ← load_vocabulary buckets vocabulary
    let merge_rank ← load_merges buckets merge_of_line (merges.splitOn 10)
    .ok (⟨token_to_id, tokens_by_id token_to_id, merge_rank, ∅, []⟩, none)
  | _, _ => do
    let tokenizer_json ← read_json numbers files.tokenizer "tokenizer.json"
    let model ← tokenizer_json.at_key "model"
    let type ← (← model.at_key "type").get_string
    Except.throw_if (type ≠ bytes "BPE") "tokenizer.json does not contain a BPE model"
    let token_to_id ← load_vocabulary buckets (← model.at_key "vocab")
    let merge_rank ← load_merges buckets merge_of_json (← (← model.at_key "merges").get_array)
    .ok (⟨token_to_id, tokens_by_id token_to_id, merge_rank, ∅, []⟩, some tokenizer_json)

/-- `Tokenizer::load`. -/
def load (numbers : NumberText) (files : TokenizerFiles) : Except String Tokenizer := do
  let (tokenizer, tokenizer_json) ← load_model buckets numbers files
  let tokenizer_config ← read_json numbers files.tokenizer_config "tokenizer_config.json"
  load_added_tokens buckets tokenizer tokenizer_config tokenizer_json

end Load

/-! ### Decoding -/

/-- The bytes of the symbols of a token. -/
def symbol_bytes (cps : List Codepoint) : Except String Bytes :=
  cps.mapM fun cp =>
    match symbol_to_byte cp.value with
    | some byte => .ok byte
    | none => .error "token contains an invalid byte symbol"

/-- What `decode` appends for a token. -/
def decode_token (unicode : Utf8proc) (tokenizer : Tokenizer) (id : UInt32) : Except String Bytes :=
  match tokenizer.id_to_token[id.toNat]? with
  | none | some [] => .error ("token ID is not in the vocabulary: " ++ toString id.toNat)
  | some token =>
    if id ∈ tokenizer.special_ids then .ok token
    else do symbol_bytes (← codepoints unicode token)

/-- `Tokenizer::decode`. -/
def decode (unicode : Utf8proc) (tokenizer : Tokenizer) (token_ids : List UInt32) :
    Except String Bytes :=
  token_ids.foldlM (fun output id => do .ok (output ++ (← decode_token unicode tokenizer id))) []

end Tokenizer

end Token

end Qwen38
