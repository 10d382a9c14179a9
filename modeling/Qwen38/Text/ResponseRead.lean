import Qwen38.Text.JsonRoundTrip
import Qwen38.Text.ResponseJson
import Qwen38.Text.ToolGrammar

/-!
# Reading the bodies of the responses

A body is shown to be the text of an object out of the texts of its fields
(`Qwen38.fields_text`), and so it is read back as exactly that object
(`Qwen38.reads_fields`), whatever the model, the text, and the names and the arguments of
the calls are made of (`Qwen38.response_json_faithful`).

The arguments of a call are themselves the text of an object, in a string of the body. The
object that is read from it has the parameters of the block that the call was read from, and
nothing else (`Qwen38.CallText.ArgumentsRead`).
-/

namespace Qwen38

open Json (quote_byte quote_json_string digits_of comma_separated Reads number_value)

/-! ### The texts of fields -/

/-- Both escapers of the source write the same. -/
theorem escape_byte_eq (c : UInt8) : escape_byte c = quote_byte c := by
  rw [escape_byte, quote_byte]
  split_ifs with h34 h92 h8 h12 h10 h13 h9 hcontrol
  all_goals try rfl
  have hhex : ∀ n < 32, ascii ((Nat.toDigits 16 n).leftpad 4 '0') =
      48 :: 48 :: Json.lower_hex (n / 16) :: [Json.lower_hex (n % 16)] := by decide
  rw [hex4_text, hhex c.toNat (UInt8.lt_iff_toNat_lt.mp hcontrol)]
  rfl

theorem quote_json_string_eq (s : Bytes) :
    quote_json_string s = 34 :: (json_escape s ++ [34]) := by
  have hescape : json_escape s = s.flatMap quote_byte := by
    rw [json_escape, funext escape_byte_eq]
  rw [hescape]
  rfl

/-- The bytes that stand for themselves in a string. -/
def is_plain (b : UInt8) : Bool := 0x20 ≤ b && b != 34 && b != 92

theorem quote_byte_plain {b : UInt8} (h : is_plain b = true) : quote_byte b = [b] := by
  simp only [is_plain, Bool.and_eq_true, decide_eq_true_eq, bne_iff_ne] at h
  obtain ⟨⟨hlow, h34⟩, h92⟩ := h
  have hne : ∀ c, c < 0x20 → b ≠ c := by
    rintro c hc rfl
    exact absurd hlow (UInt8.not_le.mpr hc)
  rw [quote_byte, if_neg h34, if_neg h92, if_neg (hne 8 (by decide)), if_neg (hne 12 (by decide)),
    if_neg (hne 10 (by decide)), if_neg (hne 13 (by decide)), if_neg (hne 9 (by decide)),
    if_neg (UInt8.not_lt.mpr hlow)]

theorem json_escape_plain {s : Bytes} (h : s.all is_plain = true) : json_escape s = s := by
  rw [json_escape, funext escape_byte_eq]
  induction s with
  | nil => rfl
  | cons b s ih =>
    rw [List.all_cons, Bool.and_eq_true] at h
    rw [List.flatMap_cons, quote_byte_plain h.1, ih h.2]
    rfl

/-- The text of an object out of the texts of its fields. -/
def fields_text (fields : List (Bytes × Bytes)) : Bytes :=
  ascii ['\x7b'] ++ comma_separated (fields.map fun (key, text) => 34 :: (key ++ 34 :: 58 :: text)) ++
    ascii ['\x7d']

/-- Field by field, as a body is put together. -/
theorem fields_text_cons (key text : Bytes) (fields : List (Bytes × Bytes)) :
    fields_text ((key, text) :: fields) =
      fields.foldl (fun body field => body ++ (44 :: 34 :: (field.1 ++ [34, 58])) ++ field.2)
        ((123 :: 34 :: (key ++ [34, 58])) ++ text) ++ [125] := by
  -- what the fields before `fields` have come to
  have hfold : ∀ (body : Bytes) (key text : Bytes), body ++ comma_separated
      (((key, text) :: fields).map fun (key, text) => 34 :: (key ++ 34 :: 58 :: text)) =
        fields.foldl (fun body field => body ++ (44 :: 34 :: (field.1 ++ [34, 58])) ++ field.2)
          (body ++ 34 :: (key ++ 34 :: 58 :: text)) := by
    induction fields with
    | nil => simp [comma_separated]
    | cons field fields ih =>
      intro body key text
      have hmore := ih (body ++ 34 :: (key ++ 34 :: 58 :: text) ++ [44]) field.1 field.2
      rw [List.map_cons, Json.comma_separated_cons _ (by simp), List.foldl_cons]
      have hassoc : body ++ 34 :: (key ++ 34 :: 58 :: text) ++
          (44 :: 34 :: (field.1 ++ [34, 58])) ++ field.2 =
            body ++ 34 :: (key ++ 34 :: 58 :: text) ++ [44] ++
              34 :: (field.1 ++ 34 :: 58 :: field.2) := by simp
      rw [hassoc, ← hmore]
      simp
  have hopen := hfold [123] key text
  have hfirst : [123] ++ 34 :: (key ++ 34 :: 58 :: text) =
      (123 :: 34 :: (key ++ [34, 58])) ++ text := by simp
  rw [hfirst] at hopen
  rw [← hopen]
  rfl

section Reading

variable {numbers : NumberText}

/-- A field of an object: a key that needs no escape, and a text that is read as a value. -/
structure Field (numbers : NumberText) where
  key : Bytes
  text : Bytes
  value : Json numbers.Double
  reads : Reads numbers text value
  plain : key.all is_plain = true

variable (numbers) in
/-- **An object out of fields** with distinct keys is read back as the object of their values. A
field carries its text, and that this is read back as its value. -/
theorem reads_fields (fields : List (Field numbers)) (hkeys : (fields.map Field.key).Nodup) :
    Reads numbers (fields_text (fields.map fun f => (f.key, f.text)))
      (.object (fields.map fun f => (f.key, f.value))) := by
  have htext : fields_text (fields.map fun f => (f.key, f.text)) =
      ascii ['\x7b'] ++ comma_separated
        ((fields.map fun f => (f.key, f.text, f.value)).map Json.entry_text) ++ ascii ['\x7d'] := by
    rw [fields_text, List.map_map, List.map_map]
    congr 3
    refine List.map_congr_left fun f _ => ?_
    rw [Function.comp_apply, Function.comp_apply, Json.entry_text, quote_json_string_eq,
      json_escape_plain f.plain]
    simp
  have hreads := Json.reads_object (fields.map fun f => (f.key, f.text, f.value))
    (fun t ht => by
      obtain ⟨f, -, rfl⟩ := List.mem_map.mp ht
      exact f.reads)
    (by
      rw [List.map_map]
      exact hkeys)
  have hvalue : (fields.map fun f => (f.key, f.text, f.value)).map (fun t => (t.1, t.2.2)) =
      fields.map fun f => (f.key, f.value) := by
    rw [List.map_map]
    rfl
  rw [htext, ← hvalue]
  exact hreads

/-- A string between its quotes. -/
def string_text (s : Bytes) : Bytes := 34 :: (json_escape s ++ [34])

theorem reads_string_text (s : Bytes) : Reads numbers (string_text s) (.string s) := by
  rw [string_text, ← quote_json_string_eq]
  exact Json.reads_string s

/-- The items between the brackets of an array. -/
def items_text (texts : List Bytes) : Bytes := ascii ['['] ++ comma_separated texts ++ ascii [']']

theorem reads_items (pairs : List (Bytes × Json numbers.Double))
    (h : ∀ pair ∈ pairs, Reads numbers pair.1 pair.2) :
    Reads numbers (items_text (pairs.map Prod.fst)) (.array (pairs.map Prod.snd)) :=
  Json.reads_array h

/-- What is documented about the library: `strtod` reads the digits of a `std::size_t`; a
stream and `std::to_chars` print a finite double as an optional minus, digits, a fraction and
an exponent with a sign; `strtod` reads what a stream printed as a finite double, and what
`std::to_chars` printed with 17 digits as the same double. -/
structure DoubleText.Standard (out : DoubleText numbers) : Prop where
  strtod_counter : ∀ n : UInt64, (numbers.strtod (counter n)).isSome
  ostream_token : ∀ d, ∃ (negative : Bool) (digits fraction exponent : Bytes),
    Json.IsDigits digits ∧ Json.IsFraction fraction ∧ Json.IsExponent exponent ∧
      out.ostream d = (if negative then ascii ['-'] else []) ++ digits ++ fraction ++ exponent
  strtod_ostream : ∀ d, (numbers.strtod (out.ostream d)).isSome
  to_chars_token : ∀ d, ∃ (negative : Bool) (digits fraction exponent : Bytes),
    Json.IsDigits digits ∧ Json.IsFraction fraction ∧ Json.IsExponent exponent ∧
      numbers.to_chars d =
        (if negative then ascii ['-'] else []) ++ digits ++ fraction ++ exponent
  strtod_to_chars : ∀ d, numbers.strtod (numbers.to_chars d) = some d

theorem reads_number_of_token (negative : Bool) {digits fraction exponent text : Bytes}
    (hdigits : Json.IsDigits digits) (hfraction : Json.IsFraction fraction)
    (hexponent : Json.IsExponent exponent)
    (htext : text = (if negative then ascii ['-'] else []) ++ digits ++ fraction ++ exponent)
    (hstrtod : (numbers.strtod text).isSome) :
    Reads numbers text (number_value numbers text) := by
  obtain ⟨value, hvalue⟩ :
      ∃ value, Json.token_value numbers negative digits fraction exponent = some value := by
    rw [Json.token_value, ← htext]
    split
    · exact ⟨_, rfl⟩
    · obtain ⟨d, hd⟩ := Option.isSome_iff_exists.mp hstrtod
      exact ⟨.number d, by rw [hd]; rfl⟩
  have hreads := Json.reads_token hdigits hfraction hexponent hvalue
  rw [← htext] at hreads
  rw [Json.number_value_of_reads hreads]
  exact hreads

variable {out : DoubleText numbers}

theorem DoubleText.Standard.reads_counter (h : out.Standard) (n : UInt64) :
    Reads numbers (counter n) (number_value numbers (counter n)) :=
  reads_number_of_token false (Json.isDigits_digits_of n.toNat) (Or.inl rfl)
    (Or.inl rfl) (by simp [counter]) (h.strtod_counter n)

theorem DoubleText.Standard.reads_ostream (h : out.Standard) (d : numbers.Double) :
    Reads numbers (out.ostream d) (number_value numbers (out.ostream d)) := by
  obtain ⟨negative, digits, fraction, exponent, hdigits, hfraction, hexponent, htext⟩ :=
    h.ostream_token d
  exact reads_number_of_token negative hdigits hfraction hexponent htext (h.strtod_ostream d)

/-- A string of the source's own. -/
def plain_text (s : Bytes) : Bytes := 34 :: (s ++ [34])

theorem reads_plain_text {s : Bytes} (h : s.all is_plain = true) :
    Reads numbers (plain_text s) (.string s) := by
  have hreads : Reads numbers (string_text s) (.string s) := reads_string_text s
  rw [string_text, json_escape_plain h] at hreads
  exact hreads

theorem reads_truth (b : Bool) : Reads numbers (truth b) (.boolean b) := Json.reads_boolean b

/-! ### What the bodies are read as -/

section Values

variable (numbers : NumberText)

/-- A counter, which is an integer when it is in the machine's signed range. -/
def count (n : UInt64) : Json numbers.Double := number_value numbers (counter n)

def positions_value (values : Fin 4 → UInt64) : Json numbers.Double :=
  .array ((positions values).map (count numbers))

def tool_call_value (streaming : Bool) (index : UInt64) (call : ParsedToolCall) :
    Json numbers.Double :=
  .object ((if streaming then [(bytes "index", count numbers index)] else []) ++
    [(bytes "id", .string (bytes "call_qwen38_" ++ counter index)),
      (bytes "type", .string (bytes "function")),
      (bytes "function", .object [(bytes "name", .string call.name),
        (bytes "arguments", .string call.arguments_json)])])

def tool_calls_value (streaming : Bool) (calls : List ParsedToolCall) : Json numbers.Double :=
  .array (calls.zipIdx.map fun (call, index) =>
    tool_call_value numbers streaming index.toUInt64 call)

/-- The envelope of every body. -/
def body_value (object model_id : Bytes) (choice : List (Bytes × Json numbers.Double))
    (more : List (Bytes × Json numbers.Double)) : Json numbers.Double :=
  .object ([(bytes "id", .string (bytes "qwen38-native")), (bytes "object", .string object),
    (bytes "model", .string model_id), (bytes "choices", .array [.object choice])] ++ more)

def stream_object (chat : Bool) : Bytes :=
  if chat then bytes "chat.completion.chunk" else bytes "text_completion"

def delta_value (model_id : Bytes) (chat : Bool) (field delta : Bytes) : Json numbers.Double :=
  body_value numbers (stream_object chat) model_id
    [(bytes "index", .integer 0),
      if chat then (bytes "delta", .object [(field, .string delta)])
      else (bytes "text", .string delta),
      (bytes "finish_reason", .null)] []

def tool_calls_chunk_value (model_id : Bytes) (calls : List ParsedToolCall) :
    Json numbers.Double :=
  body_value numbers (stream_object true) model_id
    [(bytes "index", .integer 0),
      (bytes "delta", .object [(bytes "tool_calls", tool_calls_value numbers true calls)]),
      (bytes "finish_reason", .null)] []

def message_value (output : ChatOutput) : Json numbers.Double :=
  .object ([(bytes "role", .string (bytes "assistant")),
      (bytes "content", .string output.content)] ++
    (match output.reasoning_content with
      | some reasoning => [(bytes "reasoning_content", .string reasoning)]
      | none => []) ++
    (if output.tool_calls ≠ [] then
      [(bytes "tool_calls", tool_calls_value numbers false output.tool_calls)]
    else []))

variable {numbers} (out : DoubleText numbers) (result : ResponseResult numbers)

/-- A double, as its text is read. -/
def double (d : numbers.Double) : Json numbers.Double := number_value numbers (out.ostream d)

def usage_value : Json numbers.Double :=
  .object [(bytes "prompt_tokens", count numbers result.prompt_tokens),
    (bytes "completion_tokens", count numbers result.tokens_size),
    (bytes "total_tokens", count numbers (result.prompt_tokens + result.tokens_size)),
    (bytes "prompt_tokens_details",
      .object [(bytes "cached_tokens", count numbers result.cached_prompt_tokens)])]

def finish_value (model_id : Bytes) (chat include_usage : Bool) : Json numbers.Double :=
  body_value numbers (stream_object chat) model_id
    [(bytes "index", .integer 0),
      if chat then (bytes "delta", .object []) else (bytes "text", .string []),
      (bytes "finish_reason", .string result.finish_reason)]
    (if include_usage then [(bytes "usage", usage_value result)] else [])

def mtp_value : Json numbers.Double :=
  .object [(bytes "rounds", count numbers result.mtp_rounds),
    (bytes "proposed", count numbers result.mtp_proposed),
    (bytes "accepted", count numbers result.mtp_accepted),
    (bytes "proposed_by_position", positions_value numbers result.mtp_proposed_by_position),
    (bytes "accepted_by_position", positions_value numbers result.mtp_accepted_by_position),
    (bytes "top2_rejected_by_position",
      positions_value numbers result.mtp_top2_rejected_by_position),
    (bytes "top2_recovered_by_position",
      positions_value numbers result.mtp_top2_recovered_by_position),
    (bytes "top2_descendant_recovered_by_position",
      positions_value numbers result.mtp_top2_descendant_recovered_by_position),
    (bytes "top2_descendant_accepted_by_position",
      positions_value numbers result.mtp_top2_descendant_accepted_by_position),
    (bytes "fallbacks", count numbers result.mtp_fallbacks),
    (bytes "depth", count numbers result.mtp_final_depth),
    (bytes "promotions", count numbers result.mtp_promotions),
    (bytes "demotions", count numbers result.mtp_demotions),
    (bytes "profitability_cache_skip", .boolean result.mtp_profitability_cache_skip),
    (bytes "profitability_cache_keep", .boolean result.mtp_profitability_cache_keep),
    (bytes "draft_ms", double out result.mtp_draft_ms),
    (bytes "verify_ms", double out result.mtp_verify_ms),
    (bytes "commit_ms", double out result.mtp_commit_ms)]

def history_draft_value : Json numbers.Double :=
  .object [(bytes "rounds", count numbers result.history_draft_rounds),
    (bytes "proposed", count numbers result.history_draft_proposed),
    (bytes "accepted", count numbers result.history_draft_accepted),
    (bytes "activations", count numbers result.history_draft_activations),
    (bytes "deactivations", count numbers result.history_draft_deactivations)]

def context_copy_value : Json numbers.Double :=
  .object [(bytes "rounds", count numbers result.context_copy_rounds),
    (bytes "proposed", count numbers result.context_copy_proposed),
    (bytes "accepted", count numbers result.context_copy_accepted),
    (bytes "suspensions", count numbers result.context_copy_suspensions)]

def thinking_value : Json numbers.Double :=
  .object [(bytes "budget_tokens", count numbers result.thinking_budget_tokens),
    (bytes "forced", .boolean result.thinking_budget_forced)]

def performance_value : Json numbers.Double :=
  .object [(bytes "prompt_ms", double out result.prompt_ms),
    (bytes "cached_prompt_tokens", count numbers result.cached_prompt_tokens),
    (bytes "generation_ms", double out result.generation_ms),
    (bytes "generation_tps",
      double out (out.generation_tps result.tokens_size result.generation_ms)),
    (bytes "mtp", mtp_value out result), (bytes "history_draft", history_draft_value result),
    (bytes "context_copy", context_copy_value result),
    (bytes "thinking", thinking_value result)]

def completion_value (model_id : Bytes) (chat enable_thinking : Bool) (tool_schemas : List Bytes) :
    Json numbers.Double :=
  let output := split_chat_output numbers result.text enable_thinking tool_schemas
  let finish_reason :=
    if chat = true ∧ output.tool_calls ≠ [] then bytes "tool_calls" else result.finish_reason
  body_value numbers (if chat then bytes "chat.completion" else bytes "text_completion") model_id
    [(bytes "index", .integer 0),
      if chat then (bytes "message", message_value numbers output)
      else (bytes "text", .string result.text),
      (bytes "finish_reason", .string finish_reason)]
    [(bytes "usage", usage_value result), (bytes "performance", performance_value out result)]

end Values

/-! ### Reading the bodies -/

theorem reads_by_position (h : out.Standard) (values : Fin 4 → UInt64) :
    Reads numbers (by_position values) (positions_value numbers values) := by
  have hitems : ∀ pair ∈ [0, 1, 2, 3].map fun i => (counter (values i), count numbers (values i)),
      Reads numbers pair.1 pair.2 := by
    intro pair hpair
    obtain ⟨i, -, rfl⟩ := List.mem_map.mp hpair
    exact h.reads_counter (values i)
  have htext : by_position values =
      items_text [counter (values 0), counter (values 1), counter (values 2), counter (values 3)] := by
    simp [by_position, items_text, bytes, ascii, comma_separated]
  rw [htext]
  exact reads_items _ hitems

theorem reads_usage (h : out.Standard) (result : ResponseResult numbers) :
    Reads numbers (usage_json result) (usage_value result) := by
  have hdetails := reads_fields numbers [⟨bytes "cached_tokens", _, _,
    h.reads_counter result.cached_prompt_tokens, by decide⟩] (List.nodup_singleton _)
  have hkeys : [bytes "prompt_tokens", bytes "completion_tokens", bytes "total_tokens",
    bytes "prompt_tokens_details"].Nodup := by decide
  have husage := reads_fields numbers
    [⟨bytes "prompt_tokens", _, _, h.reads_counter result.prompt_tokens, by decide⟩,
      ⟨bytes "completion_tokens", _, _, h.reads_counter result.tokens_size, by decide⟩,
      ⟨bytes "total_tokens", _, _, h.reads_counter (result.prompt_tokens + result.tokens_size),
        by decide⟩,
      ⟨bytes "prompt_tokens_details", _, _, hdetails, by decide⟩] hkeys
  have htext : usage_json result = fields_text [(bytes "prompt_tokens", counter result.prompt_tokens),
      (bytes "completion_tokens", counter result.tokens_size),
      (bytes "total_tokens", counter (result.prompt_tokens + result.tokens_size)),
      (bytes "prompt_tokens_details",
        fields_text [(bytes "cached_tokens", counter result.cached_prompt_tokens)])] := by
    simp [usage_json, fields_text, bytes, ascii, comma_separated]
  rw [htext]
  exact husage

theorem reads_mtp (h : out.Standard) (result : ResponseResult numbers) :
    Reads numbers (mtp_json out result) (mtp_value out result) := by
  have hkeys : [bytes "rounds", bytes "proposed", bytes "accepted", bytes "proposed_by_position",
    bytes "accepted_by_position", bytes "top2_rejected_by_position",
    bytes "top2_recovered_by_position", bytes "top2_descendant_recovered_by_position",
    bytes "top2_descendant_accepted_by_position", bytes "fallbacks", bytes "depth",
    bytes "promotions", bytes "demotions", bytes "profitability_cache_skip",
    bytes "profitability_cache_keep", bytes "draft_ms", bytes "verify_ms",
    bytes "commit_ms"].Nodup := by decide
  have hmtp := reads_fields numbers
    [⟨bytes "rounds", _, _, h.reads_counter result.mtp_rounds, by decide⟩,
      ⟨bytes "proposed", _, _, h.reads_counter result.mtp_proposed, by decide⟩,
      ⟨bytes "accepted", _, _, h.reads_counter result.mtp_accepted, by decide⟩,
      ⟨bytes "proposed_by_position", _, _,
        reads_by_position h result.mtp_proposed_by_position, by decide⟩,
      ⟨bytes "accepted_by_position", _, _,
        reads_by_position h result.mtp_accepted_by_position, by decide⟩,
      ⟨bytes "top2_rejected_by_position", _, _,
        reads_by_position h result.mtp_top2_rejected_by_position, by decide⟩,
      ⟨bytes "top2_recovered_by_position", _, _,
        reads_by_position h result.mtp_top2_recovered_by_position, by decide⟩,
      ⟨bytes "top2_descendant_recovered_by_position", _, _,
        reads_by_position h result.mtp_top2_descendant_recovered_by_position, by decide⟩,
      ⟨bytes "top2_descendant_accepted_by_position", _, _,
        reads_by_position h result.mtp_top2_descendant_accepted_by_position, by decide⟩,
      ⟨bytes "fallbacks", _, _, h.reads_counter result.mtp_fallbacks, by decide⟩,
      ⟨bytes "depth", _, _, h.reads_counter result.mtp_final_depth, by decide⟩,
      ⟨bytes "promotions", _, _, h.reads_counter result.mtp_promotions, by decide⟩,
      ⟨bytes "demotions", _, _, h.reads_counter result.mtp_demotions, by decide⟩,
      ⟨bytes "profitability_cache_skip", _, _,
        reads_truth result.mtp_profitability_cache_skip, by decide⟩,
      ⟨bytes "profitability_cache_keep", _, _,
        reads_truth result.mtp_profitability_cache_keep, by decide⟩,
      ⟨bytes "draft_ms", _, _, h.reads_ostream result.mtp_draft_ms, by decide⟩,
      ⟨bytes "verify_ms", _, _, h.reads_ostream result.mtp_verify_ms, by decide⟩,
      ⟨bytes "commit_ms", _, _, h.reads_ostream result.mtp_commit_ms, by decide⟩] hkeys
  have htext : mtp_json out result = fields_text
      [(bytes "rounds", counter result.mtp_rounds),
        (bytes "proposed", counter result.mtp_proposed),
        (bytes "accepted", counter result.mtp_accepted),
        (bytes "proposed_by_position", by_position result.mtp_proposed_by_position),
        (bytes "accepted_by_position", by_position result.mtp_accepted_by_position),
        (bytes "top2_rejected_by_position", by_position result.mtp_top2_rejected_by_position),
        (bytes "top2_recovered_by_position", by_position result.mtp_top2_recovered_by_position),
        (bytes "top2_descendant_recovered_by_position",
          by_position result.mtp_top2_descendant_recovered_by_position),
        (bytes "top2_descendant_accepted_by_position",
          by_position result.mtp_top2_descendant_accepted_by_position),
        (bytes "fallbacks", counter result.mtp_fallbacks),
        (bytes "depth", counter result.mtp_final_depth),
        (bytes "promotions", counter result.mtp_promotions),
        (bytes "demotions", counter result.mtp_demotions),
        (bytes "profitability_cache_skip", truth result.mtp_profitability_cache_skip),
        (bytes "profitability_cache_keep", truth result.mtp_profitability_cache_keep),
        (bytes "draft_ms", out.ostream result.mtp_draft_ms),
        (bytes "verify_ms", out.ostream result.mtp_verify_ms),
        (bytes "commit_ms", out.ostream result.mtp_commit_ms)] := by
    rw [fields_text_cons]
    rfl
  rw [htext]
  exact hmtp

theorem reads_history_draft (h : out.Standard) (result : ResponseResult numbers) :
    Reads numbers (history_draft_json result) (history_draft_value result) := by
  have hkeys : [bytes "rounds", bytes "proposed", bytes "accepted", bytes "activations",
    bytes "deactivations"].Nodup := by decide
  have hdraft := reads_fields numbers
    [⟨bytes "rounds", _, _, h.reads_counter result.history_draft_rounds, by decide⟩,
      ⟨bytes "proposed", _, _, h.reads_counter result.history_draft_proposed, by decide⟩,
      ⟨bytes "accepted", _, _, h.reads_counter result.history_draft_accepted, by decide⟩,
      ⟨bytes "activations", _, _, h.reads_counter result.history_draft_activations, by decide⟩,
      ⟨bytes "deactivations", _, _, h.reads_counter result.history_draft_deactivations,
        by decide⟩] hkeys
  have htext : history_draft_json result = fields_text
      [(bytes "rounds", counter result.history_draft_rounds),
        (bytes "proposed", counter result.history_draft_proposed),
        (bytes "accepted", counter result.history_draft_accepted),
        (bytes "activations", counter result.history_draft_activations),
        (bytes "deactivations", counter result.history_draft_deactivations)] := by
    rw [fields_text_cons]
    rfl
  rw [htext]
  exact hdraft

theorem reads_context_copy (h : out.Standard) (result : ResponseResult numbers) :
    Reads numbers (context_copy_json result) (context_copy_value result) := by
  have hkeys : [bytes "rounds", bytes "proposed", bytes "accepted",
    bytes "suspensions"].Nodup := by decide
  have hcopy := reads_fields numbers
    [⟨bytes "rounds", _, _, h.reads_counter result.context_copy_rounds, by decide⟩,
      ⟨bytes "proposed", _, _, h.reads_counter result.context_copy_proposed, by decide⟩,
      ⟨bytes "accepted", _, _, h.reads_counter result.context_copy_accepted, by decide⟩,
      ⟨bytes "suspensions", _, _, h.reads_counter result.context_copy_suspensions,
        by decide⟩] hkeys
  have htext : context_copy_json result = fields_text
      [(bytes "rounds", counter result.context_copy_rounds),
        (bytes "proposed", counter result.context_copy_proposed),
        (bytes "accepted", counter result.context_copy_accepted),
        (bytes "suspensions", counter result.context_copy_suspensions)] := by
    rw [fields_text_cons]
    rfl
  rw [htext]
  exact hcopy

theorem reads_thinking (h : out.Standard) (result : ResponseResult numbers) :
    Reads numbers (thinking_json result) (thinking_value result) := by
  have hkeys : [bytes "budget_tokens", bytes "forced"].Nodup := by decide
  have hthinking := reads_fields numbers
    [⟨bytes "budget_tokens", _, _, h.reads_counter result.thinking_budget_tokens, by decide⟩,
      ⟨bytes "forced", _, _, reads_truth result.thinking_budget_forced, by decide⟩] hkeys
  have htext : thinking_json result = fields_text
      [(bytes "budget_tokens", counter result.thinking_budget_tokens),
        (bytes "forced", truth result.thinking_budget_forced)] := by
    rw [fields_text_cons]
    rfl
  rw [htext]
  exact hthinking

theorem reads_performance (h : out.Standard) (result : ResponseResult numbers) :
    Reads numbers (performance_json out result) (performance_value out result) := by
  have hkeys : [bytes "prompt_ms", bytes "cached_prompt_tokens", bytes "generation_ms",
    bytes "generation_tps", bytes "mtp", bytes "history_draft", bytes "context_copy",
    bytes "thinking"].Nodup := by decide
  have hperformance := reads_fields numbers
    [⟨bytes "prompt_ms", _, _, h.reads_ostream result.prompt_ms, by decide⟩,
      ⟨bytes "cached_prompt_tokens", _, _, h.reads_counter result.cached_prompt_tokens, by decide⟩,
      ⟨bytes "generation_ms", _, _, h.reads_ostream result.generation_ms, by decide⟩,
      ⟨bytes "generation_tps", _, _,
        h.reads_ostream (out.generation_tps result.tokens_size result.generation_ms), by decide⟩,
      ⟨bytes "mtp", _, _, reads_mtp h result, by decide⟩,
      ⟨bytes "history_draft", _, _, reads_history_draft h result, by decide⟩,
      ⟨bytes "context_copy", _, _, reads_context_copy h result, by decide⟩,
      ⟨bytes "thinking", _, _, reads_thinking h result, by decide⟩] hkeys
  have htext : performance_json out result = fields_text
      [(bytes "prompt_ms", out.ostream result.prompt_ms),
        (bytes "cached_prompt_tokens", counter result.cached_prompt_tokens),
        (bytes "generation_ms", out.ostream result.generation_ms),
        (bytes "generation_tps",
          out.ostream (out.generation_tps result.tokens_size result.generation_ms)),
        (bytes "mtp", mtp_json out result), (bytes "history_draft", history_draft_json result),
        (bytes "context_copy", context_copy_json result),
        (bytes "thinking", thinking_json result)] := by
    rw [fields_text_cons]
    rfl
  rw [htext]
  exact hperformance

theorem plain_call_id (index : UInt64) :
    (bytes "call_qwen38_" ++ counter index).all is_plain = true := by
  have hdigit : ∀ b : UInt8, Json.is_digit b = true → is_plain b = true := by
    intro b hb
    simp only [Json.is_digit, Bool.and_eq_true, decide_eq_true_eq] at hb
    obtain ⟨hlow, hhigh⟩ := hb
    simp only [is_plain, Bool.and_eq_true, decide_eq_true_eq, bne_iff_ne]
    refine ⟨⟨UInt8.le_trans (by decide) hlow, ?_⟩, ?_⟩
    · rintro rfl
      exact absurd hlow (by decide)
    · rintro rfl
      exact absurd hhigh (by decide)
  rw [List.all_append, Bool.and_eq_true]
  constructor
  · decide
  · rw [List.all_eq_true]
    exact fun b hb => hdigit b (Json.is_digit_of_mem_digits_of hb)

theorem reads_tool_call (h : out.Standard) (streaming : Bool) (index : UInt64)
    (call : ParsedToolCall) :
    Reads numbers (tool_call_json streaming index call)
      (tool_call_value numbers streaming index call) := by
  have hfunction_keys : [bytes "name", bytes "arguments"].Nodup := by decide
  have hfunction := reads_fields numbers
    [⟨bytes "name", _, _, reads_string_text call.name, by decide⟩,
      ⟨bytes "arguments", _, _, reads_string_text call.arguments_json, by decide⟩] hfunction_keys
  have hkeys : [bytes "index", bytes "id", bytes "type", bytes "function"].Nodup := by decide
  have plain_function : (bytes "function").all is_plain = true := by decide
  let fields : List (Field numbers) :=
    [⟨bytes "id", _, _, reads_plain_text (plain_call_id index), by decide⟩,
      ⟨bytes "type", _, _, reads_plain_text plain_function, by decide⟩,
      ⟨bytes "function", _, _, hfunction, by decide⟩]
  cases streaming with
  | true =>
    have hcall := reads_fields numbers
      (⟨bytes "index", _, _, h.reads_counter index, by decide⟩ :: fields) hkeys
    have htext : tool_call_json true index call = fields_text
        [(bytes "index", counter index),
          (bytes "id", plain_text (bytes "call_qwen38_" ++ counter index)),
          (bytes "type", plain_text (bytes "function")),
          (bytes "function", fields_text [(bytes "name", string_text call.name),
            (bytes "arguments", string_text call.arguments_json)])] := by
      simp [tool_call_json, fields_text, plain_text, string_text, bytes, ascii, comma_separated]
    rw [htext]
    exact hcall
  | false =>
    have hcall := reads_fields numbers fields (List.nodup_cons.mp hkeys).2
    have htext : tool_call_json false index call = fields_text
        [(bytes "id", plain_text (bytes "call_qwen38_" ++ counter index)),
          (bytes "type", plain_text (bytes "function")),
          (bytes "function", fields_text [(bytes "name", string_text call.name),
            (bytes "arguments", string_text call.arguments_json)])] := by
      simp [tool_call_json, fields_text, plain_text, string_text, bytes, ascii, comma_separated]
    rw [htext]
    exact hcall

/-- The calls of a body, each with its number. -/
def tool_calls_text (streaming : Bool) (calls : List ParsedToolCall) : Bytes :=
  items_text (calls.zipIdx.map fun (call, index) => tool_call_json streaming index.toUInt64 call)

theorem append_tool_calls_json_eq (calls : List ParsedToolCall) (streaming : Bool) :
    append_tool_calls_json calls streaming =
      bytes "\"tool_calls\":" ++ tool_calls_text streaming calls := by
  have hopen : bytes "\"tool_calls\":[" = bytes "\"tool_calls\":" ++ ascii ['['] := rfl
  rw [append_tool_calls_json, hopen, List.append_assoc, List.append_assoc, tool_calls_text,
    items_text, List.append_assoc]
  rfl

theorem reads_tool_calls (h : out.Standard) (streaming : Bool) (calls : List ParsedToolCall) :
    Reads numbers (tool_calls_text streaming calls)
      (tool_calls_value numbers streaming calls) := by
  have hcalls : ∀ pair ∈ calls.zipIdx.map fun (call, index) =>
      (tool_call_json streaming index.toUInt64 call,
        tool_call_value numbers streaming index.toUInt64 call), Reads numbers pair.1 pair.2 := by
    intro pair hpair
    obtain ⟨⟨call, index⟩, -, rfl⟩ := List.mem_map.mp hpair
    exact reads_tool_call h streaming index.toUInt64 call
  have hitems := reads_items _ hcalls
  rw [List.map_map, List.map_map] at hitems
  exact hitems

variable (numbers) in
/-- The envelope of a body around the choice, and what follows it. -/
theorem reads_body {object : Bytes} (hobject : object.all is_plain = true) (model_id : Bytes)
    (choice more : List (Field numbers)) (hchoice : (choice.map Field.key).Nodup)
    (hkeys : ([bytes "id", bytes "object", bytes "model", bytes "choices"] ++
      more.map Field.key).Nodup) :
    Reads numbers (fields_text ([(bytes "id", plain_text (bytes "qwen38-native")),
        (bytes "object", plain_text object), (bytes "model", string_text model_id),
        (bytes "choices", items_text [fields_text (choice.map fun f => (f.key, f.text))])] ++
          more.map fun f => (f.key, f.text)))
      (body_value numbers object model_id (choice.map fun f => (f.key, f.value))
        (more.map fun f => (f.key, f.value))) := by
  have hid : (bytes "qwen38-native").all is_plain = true := by decide
  have hone := reads_fields numbers choice hchoice
  have hchoices := reads_items [(_, _)] (List.forall_mem_singleton.mpr hone)
  have hbody := reads_fields numbers
    ([⟨bytes "id", _, _, reads_plain_text hid, by decide⟩,
      ⟨bytes "object", _, _, reads_plain_text hobject, by decide⟩,
      ⟨bytes "model", _, _, reads_string_text model_id, by decide⟩,
      ⟨bytes "choices", _, _, hchoices, by decide⟩] ++ more)
    (by
      rw [List.map_append]
      exact hkeys)
  rw [List.map_append, List.map_append] at hbody
  exact hbody

theorem reads_index : Reads numbers (ascii ['0']) (.integer 0) := by
  have hreads : Reads numbers (Json.integer_text 0) (.integer 0) :=
    Json.reads_integer (by decide) (by decide)
  exact hreads

/-- The keys of a body without and with what may follow the choice. -/
theorem body_keys : [bytes "id", bytes "object", bytes "model", bytes "choices"].Nodup ∧
    [bytes "id", bytes "object", bytes "model", bytes "choices", bytes "usage"].Nodup ∧
    [bytes "id", bytes "object", bytes "model", bytes "choices", bytes "usage",
      bytes "performance"].Nodup := by decide

/-- The keys of a choice. -/
theorem choice_keys : ∀ key ∈ [bytes "delta", bytes "text", bytes "message"],
    [bytes "index", key, bytes "finish_reason"].Nodup := by decide

theorem plain_stream_object (chat : Bool) : (stream_object chat).all is_plain = true := by
  cases chat <;> decide

theorem reads_stream_delta (model_id : Bytes) (chat : Bool) {field : Bytes}
    (hfield : field.all is_plain = true) (delta : Bytes) :
    Reads numbers (stream_delta_json model_id chat field delta)
      (delta_value numbers model_id chat field delta) := by
  have hbody : [bytes "id", bytes "object", bytes "model", bytes "choices"].Nodup := body_keys.1
  cases chat with
  | true =>
    have hkeys : [bytes "index", bytes "delta", bytes "finish_reason"].Nodup := by decide
    have hdelta := reads_fields numbers
      [⟨field, _, _, reads_string_text delta, hfield⟩] (List.nodup_singleton _)
    have hreads := reads_body numbers (plain_stream_object true) model_id
      [⟨bytes "index", _, _, reads_index, by decide⟩, ⟨bytes "delta", _, _, hdelta, by decide⟩,
        ⟨bytes "finish_reason", _, _, Json.reads_null, by decide⟩] [] hkeys hbody
    have htext : stream_delta_json model_id true field delta = fields_text
        [(bytes "id", plain_text (bytes "qwen38-native")),
          (bytes "object", plain_text (stream_object true)), (bytes "model", string_text model_id),
          (bytes "choices", items_text [fields_text [(bytes "index", ascii ['0']),
            (bytes "delta", fields_text [(field, string_text delta)]),
            (bytes "finish_reason", ascii ['n', 'u', 'l', 'l'])]])] := by
      simp [stream_delta_json, stream_object, fields_text, items_text, plain_text, string_text,
        bytes, ascii, comma_separated]
    rw [htext]
    exact hreads
  | false =>
    have hkeys : [bytes "index", bytes "text", bytes "finish_reason"].Nodup := by decide
    have hreads := reads_body numbers (plain_stream_object false) model_id
      [⟨bytes "index", _, _, reads_index, by decide⟩,
        ⟨bytes "text", _, _, reads_string_text delta, by decide⟩,
        ⟨bytes "finish_reason", _, _, Json.reads_null, by decide⟩] [] hkeys hbody
    have htext : stream_delta_json model_id false field delta = fields_text
        [(bytes "id", plain_text (bytes "qwen38-native")),
          (bytes "object", plain_text (stream_object false)), (bytes "model", string_text model_id),
          (bytes "choices", items_text [fields_text [(bytes "index", ascii ['0']),
            (bytes "text", string_text delta),
            (bytes "finish_reason", ascii ['n', 'u', 'l', 'l'])]])] := by
      simp [stream_delta_json, stream_object, fields_text, items_text, plain_text, string_text,
        bytes, ascii, comma_separated]
    rw [htext]
    exact hreads

theorem reads_stream_tool_calls (h : out.Standard) (model_id : Bytes)
    (calls : List ParsedToolCall) :
    Reads numbers (stream_tool_calls_json model_id calls)
      (tool_calls_chunk_value numbers model_id calls) := by
  have hkeys : [bytes "index", bytes "delta", bytes "finish_reason"].Nodup := by decide
  have hdelta := reads_fields numbers
    [⟨bytes "tool_calls", _, _, reads_tool_calls h true calls, by decide⟩] (List.nodup_singleton _)
  have hreads := reads_body numbers (plain_stream_object true) model_id
    [⟨bytes "index", _, _, reads_index, by decide⟩, ⟨bytes "delta", _, _, hdelta, by decide⟩,
      ⟨bytes "finish_reason", _, _, Json.reads_null, by decide⟩] [] hkeys body_keys.1
  have htext : stream_tool_calls_json model_id calls = fields_text
      [(bytes "id", plain_text (bytes "qwen38-native")),
        (bytes "object", plain_text (stream_object true)), (bytes "model", string_text model_id),
        (bytes "choices", items_text [fields_text [(bytes "index", ascii ['0']),
          (bytes "delta", fields_text [(bytes "tool_calls", tool_calls_text true calls)]),
          (bytes "finish_reason", ascii ['n', 'u', 'l', 'l'])]])] := by
    rw [stream_tool_calls_json, append_tool_calls_json_eq]
    simp [stream_object, fields_text, items_text, plain_text, string_text, bytes, ascii,
      comma_separated]
  rw [htext]
  exact hreads

theorem reads_stream_finish (h : out.Standard) (result : ResponseResult numbers)
    (model_id : Bytes) (chat include_usage : Bool) :
    Reads numbers (stream_finish_json result model_id chat include_usage)
      (finish_value result model_id chat include_usage) := by
  -- what stands for the text, and what stands behind the choice
  let middle : Field numbers := match chat with
    | true => ⟨bytes "delta", fields_text [], .object [],
        reads_fields numbers [] List.nodup_nil, by decide⟩
    | false => ⟨bytes "text", string_text [], .string [], reads_string_text [], by decide⟩
  let usage : List (Field numbers) :=
    if include_usage then [⟨bytes "usage", _, _, reads_usage h result, by decide⟩] else []
  have hkeys : [bytes "index", middle.key, bytes "finish_reason"].Nodup := by
    refine choice_keys _ ?_
    cases chat
    · exact List.mem_cons_of_mem _ List.mem_cons_self
    · exact List.mem_cons_self
  have hbody : ([bytes "id", bytes "object", bytes "model", bytes "choices"] ++
      usage.map Field.key).Nodup := by
    cases include_usage
    · exact body_keys.1
    · exact body_keys.2.1
  have hreads := reads_body numbers (plain_stream_object chat) model_id
    [⟨bytes "index", _, _, reads_index, by decide⟩, middle,
      ⟨bytes "finish_reason", _, _, reads_string_text result.finish_reason, by decide⟩]
    usage hkeys hbody
  have htext : stream_finish_json result model_id chat include_usage = fields_text
      ([(bytes "id", plain_text (bytes "qwen38-native")),
        (bytes "object", plain_text (stream_object chat)), (bytes "model", string_text model_id),
        (bytes "choices", items_text [fields_text [(bytes "index", ascii ['0']),
          (middle.key, middle.text),
          (bytes "finish_reason", string_text result.finish_reason)]])] ++
        usage.map fun f => (f.key, f.text)) := by
    cases chat <;> cases include_usage <;>
      simp [stream_finish_json, stream_object, middle, usage, fields_text, items_text, plain_text,
        string_text, json_escape, bytes, ascii, comma_separated]
  rw [htext]
  cases chat <;> cases include_usage <;> exact hreads

theorem reads_message (h : out.Standard) (output : ChatOutput) :
    Reads numbers (message_json output) (message_value numbers output) := by
  have hassistant : (bytes "assistant").all is_plain = true := by decide
  let reasoning : List (Field numbers) := match output.reasoning_content with
    | some text => [⟨bytes "reasoning_content", _, _, reads_string_text text, by decide⟩]
    | none => []
  let calls : List (Field numbers) :=
    if output.tool_calls ≠ [] then
      [⟨bytes "tool_calls", _, _, reads_tool_calls h false output.tool_calls, by decide⟩]
    else []
  have hkeys : ([bytes "role", bytes "content"] ++ reasoning.map Field.key ++
      calls.map Field.key).Nodup := by
    by_cases hcalls : output.tool_calls = [] <;>
      cases hreasoning : output.reasoning_content <;>
        simp only [reasoning, calls, hcalls, hreasoning, ne_eq, not_true_eq_false,
          not_false_eq_true, if_true, if_false, List.map_cons, List.map_nil] <;> decide
  have hreads := reads_fields numbers
    ([⟨bytes "role", _, _, reads_plain_text hassistant, by decide⟩,
      ⟨bytes "content", _, _, reads_string_text output.content, by decide⟩] ++ reasoning ++ calls)
    (by
      rw [List.map_append, List.map_append]
      exact hkeys)
  have htext : message_json output = fields_text
      ([(bytes "role", plain_text (bytes "assistant")),
        (bytes "content", string_text output.content)] ++
        (reasoning.map fun f => (f.key, f.text)) ++ calls.map fun f => (f.key, f.text)) := by
    rw [message_json, append_tool_calls_json_eq]
    by_cases hcalls : output.tool_calls = [] <;>
      cases hreasoning : output.reasoning_content <;>
        simp [reasoning, calls, hcalls, hreasoning, fields_text, plain_text, string_text, bytes,
          ascii, comma_separated]
  have hvalue : message_value numbers output = .object
      ([(bytes "role", .string (bytes "assistant")), (bytes "content", .string output.content)] ++
        (reasoning.map fun f => (f.key, f.value)) ++ calls.map fun f => (f.key, f.value)) := by
    rw [message_value]
    by_cases hcalls : output.tool_calls = [] <;>
      cases hreasoning : output.reasoning_content <;>
        simp [reasoning, calls, hcalls, hreasoning]
  rw [htext, hvalue]
  rw [List.map_append, List.map_append, List.map_append, List.map_append] at hreads
  exact hreads

theorem reads_completion (h : out.Standard) (result : ResponseResult numbers) (model_id : Bytes)
    (chat enable_thinking : Bool) (tool_schemas : List Bytes) :
    Reads numbers (completion_json out result model_id chat enable_thinking tool_schemas)
      (completion_value out result model_id chat enable_thinking tool_schemas) := by
  rw [completion_json, completion_value]
  generalize split_chat_output numbers result.text enable_thinking tool_schemas = output
  generalize (if chat = true ∧ output.tool_calls ≠ [] then bytes "tool_calls"
    else result.finish_reason) = finish_reason
  have hobject : (if chat then bytes "chat.completion" else bytes "text_completion").all
      is_plain = true := by
    cases chat <;> decide
  let middle : Field numbers := match chat with
    | true => ⟨bytes "message", _, _, reads_message h output, by decide⟩
    | false => ⟨bytes "text", _, _, reads_string_text result.text, by decide⟩
  have hkeys : [bytes "index", middle.key, bytes "finish_reason"].Nodup := by
    refine choice_keys _ ?_
    cases chat
    · exact List.mem_cons_of_mem _ List.mem_cons_self
    · exact List.mem_cons_of_mem _ (List.mem_cons_of_mem _ List.mem_cons_self)
  have hbody : ([bytes "id", bytes "object", bytes "model", bytes "choices"] ++
      [bytes "usage", bytes "performance"]).Nodup := body_keys.2.2
  have hreads := reads_body numbers hobject model_id
    [⟨bytes "index", _, _, reads_index, by decide⟩, middle,
      ⟨bytes "finish_reason", _, _, reads_string_text finish_reason, by decide⟩]
    [⟨bytes "usage", _, _, reads_usage h result, by decide⟩,
      ⟨bytes "performance", _, _, reads_performance h result, by decide⟩] hkeys hbody
  have htext : bytes "\x7b\"id\":\"qwen38-native\",\"object\":\"" ++
      (if chat then bytes "chat.completion" else bytes "text_completion") ++
      bytes "\",\"model\":\"" ++ json_escape model_id ++ bytes "\",\"choices\":[\x7b" ++
      (if chat then bytes "\"index\":0,\"message\":" ++ message_json output
      else bytes "\"index\":0,\"text\":\"" ++ json_escape result.text ++ bytes "\"") ++
      bytes ",\"finish_reason\":\"" ++ json_escape finish_reason ++
      bytes "\"\x7d],\"usage\":" ++ usage_json result ++
      bytes ",\"performance\":" ++ performance_json out result ++ bytes "\x7d" = fields_text
      [(bytes "id", plain_text (bytes "qwen38-native")),
        (bytes "object", plain_text (if chat then bytes "chat.completion" else
          bytes "text_completion")), (bytes "model", string_text model_id),
        (bytes "choices", items_text [fields_text [(bytes "index", ascii ['0']),
          (middle.key, middle.text), (bytes "finish_reason", string_text finish_reason)]]),
        (bytes "usage", usage_json result),
        (bytes "performance", performance_json out result)] := by
    cases chat <;>
      simp [middle, fields_text, items_text, plain_text, string_text, bytes, ascii, comma_separated]
  rw [htext]
  cases chat <;> exact hreads

/-! ### The arguments of a call -/

variable {tool_schemas : List Bytes}

/-- Every value that a parameter comes to can be printed. -/
theorem inferred_argument_printable
    (hnumbers : ∀ d, Reads numbers (numbers.to_chars d)
      (number_value numbers (numbers.to_chars d))) (text : Bytes) (force_string : Bool) :
    Json.Printable numbers (inferred_argument numbers text force_string) := by
  rw [inferred_argument]
  split
  · trivial
  · split
    next json hjson => exact Json.printable_of_parse hnumbers hjson
    next => trivial

theorem CallText.arguments_keys (c : CallText) :
    (c.arguments numbers tool_schemas).map Prod.fst = c.parameters.map ParameterText.name := by
  rw [CallText.arguments, List.map_map]
  rfl

/-- The keys of the arguments are distinct, and each value can be printed. -/
theorem CallText.printable_arguments
    (hnumbers : ∀ d, Reads numbers (numbers.to_chars d)
      (number_value numbers (numbers.to_chars d))) {c : CallText}
    (honce : (c.parameters.map ParameterText.name).Nodup) :
    Json.Printable numbers (.object (c.arguments numbers tool_schemas)) := by
  refine ⟨CallText.arguments_keys c ▸ honce, Json.printableEntries_iff.mpr ?_⟩
  intro entry hentry
  obtain ⟨p, -, rfl⟩ := List.mem_map.mp hentry
  exact inferred_argument_printable hnumbers _ _

/-- No parameter comes twice in a block. -/
theorem Blocks.parameters_nodup {cs : List CallText} {text : Bytes} (h : Blocks cs text) :
    ∀ c ∈ cs, (c.parameters.map ParameterText.name).Nodup := by
  induction h with
  | nil => exact List.forall_mem_nil _
  | cons hws hblock _ ih =>
    refine List.forall_mem_cons.mpr ⟨?_, ih⟩
    cases hblock with
    | mk _ _ _ honce _ => exact honce

variable (numbers tool_schemas) in
/-- **What is read where the arguments of a call were printed**: an object that has for every
parameter of the block the value of its trimmed text, as the schemas say, and no other key.
A string is the same string; what becomes of a number says `Json.reread`. -/
structure CallText.ArgumentsRead (c : CallText) (object : Json numbers.Double) : Prop where
  parsed : Json.parse numbers (c.call numbers tool_schemas).arguments_json = .ok object
  values : ∀ p ∈ c.parameters, object.find p.name = some (Json.reread numbers
    (inferred_argument numbers (trim p.text)
      (schema_requires_string numbers tool_schemas c.name p.name)))
  strings : ∀ p ∈ c.parameters, ∀ s, inferred_argument numbers (trim p.text)
    (schema_requires_string numbers tool_schemas c.name p.name) = .string s →
      object.find p.name = some (.string s)
  others : ∀ key, key ∉ c.parameters.map ParameterText.name → object.find key = none

theorem CallText.exists_argumentsRead
    (hnumbers : ∀ d, Reads numbers (numbers.to_chars d)
      (number_value numbers (numbers.to_chars d))) {c : CallText}
    (honce : (c.parameters.map ParameterText.name).Nodup) :
    ∃ object, c.ArgumentsRead numbers tool_schemas object := by
  have hprintable : Json.Printable numbers (.object (c.arguments numbers tool_schemas)) :=
    CallText.printable_arguments hnumbers honce
  have hfind := fun key => Json.find_reread hprintable.1 key
  have hvalues : ∀ p ∈ c.parameters, (Json.reread numbers
      (.object (c.arguments numbers tool_schemas))).find p.name = some (Json.reread numbers
        (inferred_argument numbers (trim p.text)
          (schema_requires_string numbers tool_schemas c.name p.name))) := by
    intro p hp
    have hlookup := (Json.lookup_eq_some_iff_mem hprintable.1).mpr (List.mem_map_of_mem hp)
    exact (hfind p.name).trans (congrArg (Option.map (Json.reread numbers)) hlookup)
  refine ⟨Json.reread numbers (.object (c.arguments numbers tool_schemas)), ?_⟩
  constructor
  case parsed => exact Json.parse_of_reads (Json.reads_dump _ hprintable)
  case values => exact hvalues
  case strings =>
    intro p hp s hs
    rw [hvalues p hp, hs]
    rfl
  case others =>
    intro key hkey
    have hfresh : key ∉ (c.arguments numbers tool_schemas).map Prod.fst := by
      rwa [CallText.arguments_keys]
    rw [hfind key, Option.map_eq_none_iff, ← Option.not_isSome_iff_eq_none]
    exact Bool.eq_false_iff.mp (lookup_isSome_eq_false_iff.mpr hfresh)

/-- A double comes back as itself, or as the integer whose digits were printed. -/
theorem DoubleText.Standard.reread_number (h : out.Standard) (d : numbers.Double) :
    Json.reread numbers (.number d) = .number d ∨
      ∃ negative digits n, numbers.to_chars d = (if negative then ascii ['-'] else []) ++ digits ∧
        Json.from_chars negative digits = some n ∧
          Json.reread numbers (.number d) = .integer n := by
  obtain ⟨negative, digits, fraction, exponent, hdigits, hfraction, hexponent, htext⟩ :=
    h.to_chars_token d
  have hstrtod := h.strtod_to_chars d
  rw [Json.reread]
  rcases hinteger : (if fraction = [] ∧ exponent = [] then Json.from_chars negative digits
    else none) with _ | n
  · refine Or.inl (Json.number_value_of_reads ?_)
    rw [htext]
    refine Json.reads_token hdigits hfraction hexponent ?_
    rw [Json.token_value, hinteger, ← htext, hstrtod]
    rfl
  · have hwhole : (fraction = [] ∧ exponent = []) ∧ Json.from_chars negative digits = some n := by
      simpa using hinteger
    obtain ⟨⟨hno_fraction, hno_exponent⟩, hvalue⟩ := hwhole
    have hdigits_text : numbers.to_chars d = (if negative then ascii ['-'] else []) ++ digits := by
      rw [htext, hno_fraction, hno_exponent, List.append_nil, List.append_nil]
    refine Or.inr ⟨negative, digits, n, hdigits_text, hvalue, Json.number_value_of_reads ?_⟩
    rw [htext]
    refine Json.reads_token hdigits hfraction hexponent ?_
    rw [Json.token_value, hinteger]

theorem DoubleText.Standard.reads_to_chars (h : out.Standard) (d : numbers.Double) :
    Reads numbers (numbers.to_chars d) (number_value numbers (numbers.to_chars d)) := by
  obtain ⟨negative, digits, fraction, exponent, hdigits, hfraction, hexponent, htext⟩ :=
    h.to_chars_token d
  exact reads_number_of_token negative hdigits hfraction hexponent htext
    (Option.isSome_iff_exists.mpr ⟨d, h.strtod_to_chars d⟩)

/-! ### The whole interface -/

/-- **Every body of a response is read back as what it was made of**, for every model,
fragment, result and list of calls.

When an output has calls it is a text with blocks, the calls are those of the blocks in order,
and the arguments of each are read back as an object with exactly the parameters of its block,
where a string is exactly the same string. A value without doubles is the same up to the order
of its keys, and a double is itself or, when its digits are those of a whole number, that
integer. -/
theorem response_json_faithful (h : out.Standard) (model_id : Bytes) :
    (∀ chat field delta, field.all is_plain = true →
      Json.parse numbers (stream_delta_json model_id chat field delta) =
        .ok (delta_value numbers model_id chat field delta)) ∧
    (∀ calls, Json.parse numbers (stream_tool_calls_json model_id calls) =
      .ok (tool_calls_chunk_value numbers model_id calls)) ∧
    (∀ (result : ResponseResult numbers) chat include_usage,
      Json.parse numbers (stream_finish_json result model_id chat include_usage) =
        .ok (finish_value result model_id chat include_usage)) ∧
    (∀ (result : ResponseResult numbers) chat enable_thinking tool_schemas,
      Json.parse numbers (completion_json out result model_id chat enable_thinking tool_schemas) =
        .ok (completion_value out result model_id chat enable_thinking tool_schemas)) ∧
    (∀ tool_schemas output,
      ((parse_qwen_tool_output numbers tool_schemas output).calls ≠ [] →
        ∃ free cs, ToolText free cs output) ∧
      ∀ free cs, ToolText free cs output →
        (parse_qwen_tool_output numbers tool_schemas output).calls =
            cs.map (CallText.call numbers tool_schemas) ∧
          ∀ c ∈ cs, ∃ object, c.ArgumentsRead numbers tool_schemas object) ∧
    (∀ value : Json numbers.Double, value.Whole → value.Same (Json.reread numbers value)) ∧
    ∀ d, Json.reread numbers (.number d) = .number d ∨
      ∃ negative digits n, numbers.to_chars d = (if negative then ascii ['-'] else []) ++ digits ∧
        Json.from_chars negative digits = some n ∧
          Json.reread numbers (.number d) = .integer n := by
  refine ⟨fun chat field delta hfield => Json.parse_of_reads (reads_stream_delta _ _ hfield _),
    fun calls => Json.parse_of_reads (reads_stream_tool_calls h _ _),
    fun result chat include_usage => Json.parse_of_reads (reads_stream_finish h _ _ _ _),
    fun result chat enable_thinking tool_schemas =>
      Json.parse_of_reads (reads_completion h _ _ _ _ _), ?_,
    Json.same_reread, h.reread_number⟩
  intro tool_schemas output
  refine ⟨toolText_of_calls, fun free cs htext => ?_⟩
  have hcalls : (parse_qwen_tool_output numbers tool_schemas output).calls =
      cs.map (CallText.call numbers tool_schemas) := by
    rw [htext.parse]
  refine ⟨hcalls, fun c hc => ?_⟩
  obtain ⟨text, hblocks, -⟩ := htext.blocks
  exact CallText.exists_argumentsRead h.reads_to_chars (hblocks.parameters_nodup c hc)

end Reading

/-! ### A library -/

/-- A library whose doubles are whole numbers. -/
def NumberText.whole : NumberText where
  Double := Nat
  strtod := fun token =>
    if token ≠ [] ∧ token.all Json.is_digit then some (Json.digits_value token) else none
  to_chars := digits_of

def DoubleText.whole : DoubleText .whole where
  ostream := digits_of
  generation_tps := fun tokens_size (generation_ms : Nat) =>
    if 0 < generation_ms then (1000 * tokens_size.toNat / generation_ms : Nat) else (0 : Nat)

theorem strtod_whole (n : Nat) : NumberText.whole.strtod (digits_of n) = some n := by
  have hall : (digits_of n).all Json.is_digit = true :=
    List.all_eq_true.mpr fun b hb => Json.is_digit_of_mem_digits_of hb
  have hif : NumberText.whole.strtod (digits_of n) = some (Json.digits_value (digits_of n)) :=
    if_pos ⟨Json.digits_of_ne_nil n, hall⟩
  rw [hif, Json.digits_value_digits_of]

theorem whole_standard : DoubleText.whole.Standard where
  strtod_counter n := Option.isSome_iff_exists.mpr ⟨_, strtod_whole n.toNat⟩
  ostream_token d :=
    ⟨false, digits_of d, [], [], Json.isDigits_digits_of d, Or.inl rfl, Or.inl rfl, by
      rw [List.append_nil, List.append_nil]
      rfl⟩
  strtod_ostream d := Option.isSome_iff_exists.mpr ⟨_, strtod_whole d⟩
  to_chars_token d :=
    ⟨false, digits_of d, [], [], Json.isDigits_digits_of d, Or.inl rfl, Or.inl rfl, by
      rw [List.append_nil, List.append_nil]
      rfl⟩
  strtod_to_chars d := strtod_whole d

/-- A call with a string that needs two levels of escapes and a number. -/
def edit_call : CallText :=
  ⟨bytes "edit", [⟨bytes "path", bytes "\na\"b\\c\n"⟩, ⟨bytes "line", bytes "3"⟩]⟩

/-- What a model writes for it. -/
def edit_output : Bytes :=
  bytes "Now.\n<tool_call>\n<function=edit>\n<parameter=path>\na\"b\\c\n</parameter>" ++
    bytes "\n<parameter=line>3</parameter>\n</function>\n</tool_call>\n"

theorem toolText_edit : ToolText (bytes "Now.\n") [edit_call] edit_output := by
  have hwhite : White (bytes "\n") := List.forall_mem_singleton.mpr rfl
  have hparameters : Parameters edit_call.parameters
      (bytes "\n" ++ (ParameterText.written ⟨bytes "path", bytes "\na\"b\\c\n"⟩ ++
        (bytes "\n" ++ (ParameterText.written ⟨bytes "line", bytes "3"⟩ ++ bytes "\n")))) := by
    refine .cons hwhite ⟨tagName_iff.mpr rfl, by decide⟩ (.cons hwhite ⟨tagName_iff.mpr rfl,
      by decide⟩ (.nil hwhite))
  have hblock : Block edit_call _ :=
    .mk hwhite (tagName_iff.mpr rfl) hparameters (by decide) hwhite
  have hblocks := Blocks.cons (List.forall_mem_nil _) hblock (.nil hwhite)
  exact ⟨by decide, ⟨_, hblocks, by decide⟩, List.cons_ne_nil _ _⟩

/-- The calls of that output in a body of a stream, and the arguments in it. -/
theorem response_json_faithful_edit :
    Json.parse .whole (stream_tool_calls_json (bytes "a\"b") [edit_call.call .whole []]) =
        .ok (tool_calls_chunk_value .whole (bytes "a\"b") [edit_call.call .whole []]) ∧
      (parse_qwen_tool_output .whole [] edit_output).calls = [edit_call.call .whole []] ∧
      ∃ object, Json.parse .whole (edit_call.call .whole []).arguments_json = .ok object ∧
        object.find (bytes "path") = some (.string (bytes "a\"b\\c")) ∧
        object.find (bytes "line") = some (.integer 3) ∧ object.find (bytes "lines") = none := by
  obtain ⟨-, hchunk, -, -, hcalls, -⟩ := response_json_faithful whole_standard (bytes "a\"b")
  obtain ⟨hsame, harguments⟩ := (hcalls [] edit_output).2 _ _ toolText_edit
  obtain ⟨object, hread⟩ := harguments edit_call (List.mem_singleton_self _)
  refine ⟨hchunk _, hsame, object, hread.parsed, ?_, ?_, hread.others _ (by decide)⟩
  · exact hread.strings _ List.mem_cons_self _ rfl
  · exact hread.values _ (List.mem_cons_of_mem _ List.mem_cons_self)

end Qwen38
