import Qwen38.Text.ChatOutput
import Qwen38.Text.ChatTemplate
import Qwen38.Text.JsonText

/-!
# The bodies of the responses

`completion_json` and the three bodies of a stream are put together by inserting strings and
numbers between literals, and are written here as the source inserts them. The strings go
through `json_escape`; the literals, and the field of a delta, are inserted as they are.

The numbers of a body are counters of the machine, whose digits are known, and doubles. How
a stream prints those is a parameter, `DoubleText`.
-/

namespace Qwen38

open Json (digits_of comma_separated)

/-! ### Inserting into a body -/

/-- A hexadecimal number after `std::hex`, `std::setw(4)` and `std::setfill('0')`. -/
def hex4_text (n : Nat) : Bytes := ascii ((Nat.toDigits 16 n).leftpad 4 '0')

/-- How `json_escape` writes one byte. -/
def escape_byte (c : UInt8) : Bytes :=
  if c = 34 then bytes "\\\""
  else if c = 92 then bytes "\\\\"
  else if c = 8 then bytes "\\b"
  else if c = 12 then bytes "\\f"
  else if c = 10 then bytes "\\n"
  else if c = 13 then bytes "\\r"
  else if c = 9 then bytes "\\t"
  else if c < 0x20 then bytes "\\u" ++ hex4_text c.toNat
  else [c]

/-- `json_escape`. -/
def json_escape (input : Bytes) : Bytes := input.flatMap escape_byte

/-- A `std::size_t` in a body. -/
def counter (n : UInt64) : Bytes := digits_of n.toNat

/-- A `bool` in a body. -/
def truth (b : Bool) : Bytes := if b then bytes "true" else bytes "false"

/-- One counter for each draft position. -/
def by_position (values : Fin 4 → UInt64) : Bytes :=
  bytes "[" ++ counter (values 0) ++ bytes "," ++ counter (values 1) ++ bytes "," ++
    counter (values 2) ++ bytes "," ++ counter (values 3) ++ bytes "]"

/-- The counters of the draft positions, in order. -/
def positions (values : Fin 4 → UInt64) : List UInt64 :=
  [values 0, values 1, values 2, values 3]

/-- The floating point of the bodies: how a stream prints a finite double, and the rate it
prints. -/
structure DoubleText (numbers : NumberText) where
  /-- `operator<<` of a stream with its default format. -/
  ostream : numbers.Double → Bytes
  /-- `generation_ms > 0.0 ? 1000.0 * tokens / generation_ms : 0.0`. -/
  generation_tps : UInt64 → numbers.Double → numbers.Double

/-- The fields of `GenerationResult` that the bodies print. -/
structure ResponseResult (numbers : NumberText) where
  text : Bytes
  /-- `tokens.size()`. -/
  tokens_size : UInt64
  prompt_tokens : UInt64
  cached_prompt_tokens : UInt64
  prompt_ms : numbers.Double
  generation_ms : numbers.Double
  finish_reason : Bytes
  mtp_rounds : UInt64
  mtp_proposed : UInt64
  mtp_accepted : UInt64
  mtp_proposed_by_position : Fin 4 → UInt64
  mtp_accepted_by_position : Fin 4 → UInt64
  mtp_top2_rejected_by_position : Fin 4 → UInt64
  mtp_top2_recovered_by_position : Fin 4 → UInt64
  mtp_top2_descendant_recovered_by_position : Fin 4 → UInt64
  mtp_top2_descendant_accepted_by_position : Fin 4 → UInt64
  mtp_fallbacks : UInt64
  mtp_final_depth : UInt64
  mtp_promotions : UInt64
  mtp_demotions : UInt64
  mtp_profitability_cache_skip : Bool
  mtp_profitability_cache_keep : Bool
  mtp_draft_ms : numbers.Double
  mtp_verify_ms : numbers.Double
  mtp_commit_ms : numbers.Double
  history_draft_rounds : UInt64
  history_draft_proposed : UInt64
  history_draft_accepted : UInt64
  history_draft_activations : UInt64
  history_draft_deactivations : UInt64
  context_copy_rounds : UInt64
  context_copy_proposed : UInt64
  context_copy_accepted : UInt64
  context_copy_suspensions : UInt64
  thinking_budget_tokens : UInt64
  thinking_budget_forced : Bool

/-! ### The bodies -/

/-- One call of `append_tool_calls_json`. -/
def tool_call_json (streaming : Bool) (index : UInt64) (call : ParsedToolCall) : Bytes :=
  bytes "\x7b" ++ (if streaming then bytes "\"index\":" ++ counter index ++ bytes "," else []) ++
    bytes "\"id\":\"call_qwen38_" ++ counter index ++
    bytes "\",\"type\":\"function\",\"function\":\x7b\"name\":\"" ++ json_escape call.name ++
    bytes "\",\"arguments\":\"" ++ json_escape call.arguments_json ++ bytes "\"\x7d\x7d"

/-- `append_tool_calls_json`. -/
def append_tool_calls_json (calls : List ParsedToolCall) (streaming : Bool) : Bytes :=
  bytes "\"tool_calls\":[" ++
    comma_separated (calls.zipIdx.map fun (call, index) =>
      tool_call_json streaming index.toUInt64 call) ++
    bytes "]"

/-- `stream_delta_json`. -/
def stream_delta_json (model_id : Bytes) (chat : Bool) (field delta : Bytes) : Bytes :=
  bytes "\x7b\"id\":\"qwen38-native\",\"object\":\"" ++
    (if chat then bytes "chat.completion.chunk" else bytes "text_completion") ++
    bytes "\",\"model\":\"" ++ json_escape model_id ++
    bytes "\",\"choices\":[\x7b\"index\":0," ++
    (if chat then
      bytes "\"delta\":\x7b\"" ++ field ++ bytes "\":\"" ++ json_escape delta ++ bytes "\"\x7d"
    else bytes "\"text\":\"" ++ json_escape delta ++ bytes "\"") ++
    bytes ",\"finish_reason\":null\x7d]\x7d"

/-- `stream_tool_calls_json`. -/
def stream_tool_calls_json (model_id : Bytes) (calls : List ParsedToolCall) : Bytes :=
  bytes "\x7b\"id\":\"qwen38-native\",\"object\":\"chat.completion.chunk\",\"model\":\"" ++
    json_escape model_id ++ bytes "\",\"choices\":[\x7b\"index\":0,\"delta\":\x7b" ++
    append_tool_calls_json calls true ++ bytes "\x7d,\"finish_reason\":null\x7d]\x7d"

section Results

variable {numbers : NumberText} (out : DoubleText numbers) (result : ResponseResult numbers)

/-- The object of `usage`, in both bodies that have one. -/
def usage_json : Bytes :=
  bytes "\x7b\"prompt_tokens\":" ++ counter result.prompt_tokens ++
    bytes ",\"completion_tokens\":" ++ counter result.tokens_size ++
    bytes ",\"total_tokens\":" ++ counter (result.prompt_tokens + result.tokens_size) ++
    bytes ",\"prompt_tokens_details\":\x7b\"cached_tokens\":" ++
    counter result.cached_prompt_tokens ++ bytes "\x7d" ++ bytes "\x7d"

/-- `stream_finish_json`. -/
def stream_finish_json (model_id : Bytes) (chat include_usage : Bool) : Bytes :=
  bytes "\x7b\"id\":\"qwen38-native\",\"object\":\"" ++
    (if chat then bytes "chat.completion.chunk" else bytes "text_completion") ++
    bytes "\",\"model\":\"" ++ json_escape model_id ++
    bytes "\",\"choices\":[\x7b\"index\":0," ++
    (if chat then bytes "\"delta\":\x7b\x7d" else bytes "\"text\":\"\"") ++
    bytes ",\"finish_reason\":\"" ++ json_escape result.finish_reason ++ bytes "\"\x7d]" ++
    (if include_usage then bytes ",\"usage\":" ++ usage_json result else []) ++ bytes "\x7d"

/-- The object of `mtp`. -/
def mtp_json : Bytes :=
  bytes "\x7b\"rounds\":" ++ counter result.mtp_rounds ++
    bytes ",\"proposed\":" ++ counter result.mtp_proposed ++
    bytes ",\"accepted\":" ++ counter result.mtp_accepted ++
    bytes ",\"proposed_by_position\":" ++ by_position result.mtp_proposed_by_position ++
    bytes ",\"accepted_by_position\":" ++ by_position result.mtp_accepted_by_position ++
    bytes ",\"top2_rejected_by_position\":" ++ by_position result.mtp_top2_rejected_by_position ++
    bytes ",\"top2_recovered_by_position\":" ++
    by_position result.mtp_top2_recovered_by_position ++
    bytes ",\"top2_descendant_recovered_by_position\":" ++
    by_position result.mtp_top2_descendant_recovered_by_position ++
    bytes ",\"top2_descendant_accepted_by_position\":" ++
    by_position result.mtp_top2_descendant_accepted_by_position ++
    bytes ",\"fallbacks\":" ++ counter result.mtp_fallbacks ++
    bytes ",\"depth\":" ++ counter result.mtp_final_depth ++
    bytes ",\"promotions\":" ++ counter result.mtp_promotions ++
    bytes ",\"demotions\":" ++ counter result.mtp_demotions ++
    bytes ",\"profitability_cache_skip\":" ++ truth result.mtp_profitability_cache_skip ++
    bytes ",\"profitability_cache_keep\":" ++ truth result.mtp_profitability_cache_keep ++
    bytes ",\"draft_ms\":" ++ out.ostream result.mtp_draft_ms ++
    bytes ",\"verify_ms\":" ++ out.ostream result.mtp_verify_ms ++
    bytes ",\"commit_ms\":" ++ out.ostream result.mtp_commit_ms ++ bytes "\x7d"

/-- The object of `history_draft`. -/
def history_draft_json : Bytes :=
  bytes "\x7b\"rounds\":" ++ counter result.history_draft_rounds ++
    bytes ",\"proposed\":" ++ counter result.history_draft_proposed ++
    bytes ",\"accepted\":" ++ counter result.history_draft_accepted ++
    bytes ",\"activations\":" ++ counter result.history_draft_activations ++
    bytes ",\"deactivations\":" ++ counter result.history_draft_deactivations ++ bytes "\x7d"

/-- The object of `context_copy`. -/
def context_copy_json : Bytes :=
  bytes "\x7b\"rounds\":" ++ counter result.context_copy_rounds ++
    bytes ",\"proposed\":" ++ counter result.context_copy_proposed ++
    bytes ",\"accepted\":" ++ counter result.context_copy_accepted ++
    bytes ",\"suspensions\":" ++ counter result.context_copy_suspensions ++ bytes "\x7d"

/-- The object of `thinking`. -/
def thinking_json : Bytes :=
  bytes "\x7b\"budget_tokens\":" ++ counter result.thinking_budget_tokens ++
    bytes ",\"forced\":" ++ truth result.thinking_budget_forced ++ bytes "\x7d"

/-- The object of `performance`. -/
def performance_json : Bytes :=
  bytes "\x7b\"prompt_ms\":" ++ out.ostream result.prompt_ms ++
    bytes ",\"cached_prompt_tokens\":" ++ counter result.cached_prompt_tokens ++
    bytes ",\"generation_ms\":" ++ out.ostream result.generation_ms ++
    bytes ",\"generation_tps\":" ++
    out.ostream (out.generation_tps result.tokens_size result.generation_ms) ++
    bytes ",\"mtp\":" ++ mtp_json out result ++
    bytes ",\"history_draft\":" ++ history_draft_json result ++
    bytes ",\"context_copy\":" ++ context_copy_json result ++
    bytes ",\"thinking\":" ++ thinking_json result ++ bytes "\x7d"

/-- The object of `message`. -/
def message_json (output : ChatOutput) : Bytes :=
  bytes "\x7b\"role\":\"assistant\",\"content\":\"" ++ json_escape output.content ++
    bytes "\"" ++
    (match output.reasoning_content with
      | some reasoning =>
        bytes ",\"reasoning_content\":\"" ++ json_escape reasoning ++ bytes "\""
      | none => []) ++
    (if output.tool_calls ≠ [] then
      bytes "," ++ append_tool_calls_json output.tool_calls false
    else []) ++
    bytes "\x7d"

/-- `completion_json`. -/
def completion_json (model_id : Bytes) (chat enable_thinking : Bool) (tool_schemas : List Bytes) :
    Bytes :=
  let output := split_chat_output numbers result.text enable_thinking tool_schemas
  let finish_reason :=
    if chat = true ∧ output.tool_calls ≠ [] then bytes "tool_calls" else result.finish_reason
  bytes "\x7b\"id\":\"qwen38-native\",\"object\":\"" ++
    (if chat then bytes "chat.completion" else bytes "text_completion") ++
    bytes "\",\"model\":\"" ++ json_escape model_id ++ bytes "\",\"choices\":[\x7b" ++
    (if chat then bytes "\"index\":0,\"message\":" ++ message_json output
    else bytes "\"index\":0,\"text\":\"" ++ json_escape result.text ++ bytes "\"") ++
    bytes ",\"finish_reason\":\"" ++ json_escape finish_reason ++
    bytes "\"\x7d],\"usage\":" ++ usage_json result ++
    bytes ",\"performance\":" ++ performance_json out result ++ bytes "\x7d"

end Results

end Qwen38
